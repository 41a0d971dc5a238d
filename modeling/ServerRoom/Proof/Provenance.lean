import ServerRoom.Proof.Digest
import ServerRoom.Proof.Lifetime
import ServerRoom.Proof.Observed
import ServerRoom.Proof.Verdict

/-!
# Where the frames come from

`Provenance` is where everything that the server passes on comes from: what a receiver has
in hand it received on its own connection; and a frame has passed the check on the connection
of every device in the registry, or among the recipients of a broadcast.

* `Provenance.step`: every step keeps this, whatever the digests that the receivers compare.
* `verified_authentic`: what passes the check is authentic, as long as each receiver compares
  the digest of its own frame; `decides_verdict`: it then decides as `verdict` does.
* `authentic_only`: as long as no digest comes in between that fits a frame which its own does not,
  a frame that is not authentic changes no device and no registry, what a broadcast appends is a
  frame that passed the check, byte for byte, and it goes only to connections on which a frame has
  passed it. A call of `HMAC` that does not meet this has a forged frame accepted.
* `forged_relayed`: a run in which a ping's digest comes between, and a forged frame is relayed.
-/

namespace ServerRoom.Relay

variable {C : Crypto} {s s' : Server} {a : Action} {H : History} {ev : Option Event} {σ : Stmt}
  {received received' verified verified' : List (List UInt8)}

/-- A received message. -/
def Received (received : List (List UInt8)) (m : NetworkMessage) : Prop :=
  (∃ b, m = recvd b) ∧ m.wire ∈ received

/-- A received message that has passed the check. -/
structure Verified (verified : List (List UInt8)) (m : NetworkMessage) : Prop where
  whole : ∃ b, m = recvd b
  mem : m.wire ∈ verified
  networkId : (ntohConversions m).bytes.networkId = 0

theorem Received.mono {m : NetworkMessage} (h : Received received m) (hsub : received ⊆ received') :
    Received received' m := ⟨h.1, hsub h.2⟩

theorem Verified.mono {m : NetworkMessage} (h : Verified verified m) (hsub : verified ⊆ verified') :
    Verified verified' m := ⟨h.whole, hsub h.mem, h.networkId⟩

theorem Verified.ne_nil {m : NetworkMessage} (h : Verified verified m) : verified ≠ [] :=
  List.ne_nil_of_mem h.mem

/-- The network identifier is zero in both byte orders. -/
theorem Verified.networkId_zero {m : NetworkMessage} (h : Verified verified m) : m.bytes.networkId = 0 :=
  ByteMem.load32_eq_iff.2 ((networkId_ntohConversions m).1 h.networkId)

/-- **The check passes exactly the authentic messages**, when the digest is the message's own. -/
theorem isVerified_received {m : NetworkMessage} (h : Received received m) :
    isVerified C (ntohConversions m) = Frame.isAuthentic C m.wire := by
  obtain ⟨⟨b, rfl⟩, -⟩ := h
  exact isVerified_eq C

/-- What a receiver has in hand. From the comparison on it is converted, until
`handle_recvd_message` converts it back. -/
def ReceiverPc.Carries (received verified : List (List UInt8)) : ReceiverPc → Prop
  | .check m => Received received m
  | .compare m => ∃ m₀, m = ntohConversions m₀ ∧ Received received m₀ ∧ m.bytes.networkId = 0
  | .stamp m | .setWorking m | .addAcquire m | .addLock m | .addInsert m | .addUnlock m | .dispatch m =>
    ∃ m₀, m = ntohConversions m₀ ∧ Verified verified m₀
  | .castLock m | .castCopy m _ _ | .castNext m _ | .castPush m _ _ | .castRelease m _ _
  | .castSignal m _ _ | .castUnlock m _ _ => Verified verified m
  | _ => True

/-- A receiver at its comparison holds the conversion of a message that it received. -/
theorem ReceiverPc.Carries.of_compare {m : NetworkMessage}
    (h : (ReceiverPc.compare (ntohConversions m)).Carries received verified) :
    Received received m ∧ (ntohConversions m).bytes.networkId = 0 := by
  obtain ⟨m₀, heq, hrecv, hid⟩ := h
  have hm : m = m₀ := by rw [← htonConversions_ntohConversions m, heq, htonConversions_ntohConversions]
  exact ⟨hm ▸ hrecv, hid⟩

theorem ReceiverPc.Carries.mono {p : ReceiverPc} (h : p.Carries received verified)
    (hr : received ⊆ received') (hv : verified ⊆ verified') : p.Carries received' verified' := by
  cases p <;> simp only [ReceiverPc.Carries] at h ⊢
  case check m => exact h.mono hr
  case compare m => exact h.imp fun _ hm => ⟨hm.1, hm.2.1.mono hr, hm.2.2⟩
  case stamp | setWorking | addAcquire | addLock | addInsert | addUnlock | dispatch =>
    exact h.imp fun _ hm => ⟨hm.1, hm.2.mono hv⟩
  all_goals exact h.mono hv

/-- **What a receiver has in hand after a step.** -/
theorem ReceiverPc.Step.carries {d : ℕ} {data : DeviceData} {network : UInt32 → Finset ℕ} {p p' : ReceiverPc}
    (h : p.Step C d data network σ ev p') (hp : p.Carries received verified) :
    p'.Carries (received ++ Event.newReceived d ev) (verified ++ Event.newVerified d ev) := by
  have hsub : verified ⊆ verified ++ Event.newVerified d ev := List.subset_append_left _ _
  cases h with
  | read b =>
    refine ⟨⟨b, rfl⟩, List.mem_append_right _ ?_⟩
    simp [Event.newReceived]
  | hmac m hid => exact ⟨m, rfl, Received.mono hp (List.subset_append_left _ _), hid⟩
  | verified m =>
    obtain ⟨m₀, rfl, hm, hid⟩ := hp
    refine ⟨m₀, rfl, hm.1, List.mem_append_right _ ?_, hid⟩
    rw [htonConversions_ntohConversions]
    simp [Event.newVerified]
  | accept m hping =>
    -- the hton conversions give back what was received
    obtain ⟨m₀, rfl, hm⟩ := hp
    rw [htonConversions_ntohConversions]
    exact hm.mono hsub
  | stampFirst | stampLater | setWorking | addAcquire | addLock | addInsert | addUnlock =>
    exact hp.imp fun _ hm => ⟨hm.1, hm.2.mono hsub⟩
  | castLock | castPick | castCopied | castNext | castPush | castRelease | castSignal | castUnlock =>
    exact Verified.mono hp hsub
  | _ => trivial

/-- A frame that passes the check was received, and is signed by what the buffer holds. -/
theorem ReceiverMove.verifies {d x : ℕ} {p : ReceiverPc} (hm : ReceiverMove C s d σ ev p s')
    (hp : (s.receiver d).Carries received verified) {f : List UInt8} (hf : f ∈ Event.newVerified x ev) :
    x = d ∧ ∃ m, s.receiver d = .compare (ntohConversions m) ∧ Received received m ∧ f = m.wire ∧
      (ntohConversions m).bytes.networkId = 0 ∧ isSignedBy s.digest (ntohConversions m) = true := by
  have hstep := hm.step
  generalize hq : s.receiver d = q at hstep hp
  cases hstep <;> simp only [Event.newVerified, List.not_mem_nil] at hf
  case verified m =>
    obtain ⟨m₀, rfl, hrecv, hid⟩ := hp
    have hsigned := hm.compares _ hq
    rw [htonConversions_ntohConversions] at hf
    split at hf
    · rename_i hx
      refine ⟨hx.symm, m₀, rfl, hrecv, List.mem_singleton.1 hf, hid, ?_⟩
      by_contra hno
      rw [if_neg hno] at hsigned
      cases hsigned
    · cases hf

/-- **Where everything comes from.** -/
structure Provenance (s : Server) (H : History) : Prop where
  carried : ∀ d, (s.receiver d).Carries (H.received d) (H.verified d)
  verified : ∀ d f, f ∈ H.verified d → f ∈ H.received d ∧ Frame.region f 9 4 = List.replicate 4 0
  network : ∀ n d, d ∈ s.networkDevices n → H.verified d ≠ []
  mentioned : ∀ x r, (s.receiver x).Mentions r → H.verified r ≠ []
  appended : ∀ r x d k, x ∈ H.appended r → x.origin = some (d, k) →
    Verified (H.verified d) x.message ∧ H.verified r ≠ []

theorem Provenance.starts (h : s.Starts) : Provenance s .empty where
  carried d := by rw [h.receiver]; trivial
  verified d f hf := by simp [History.empty] at hf
  network n d hd := by rw [h.networkDevices] at hd; simp at hd
  mentioned x r hr := by rw [h.receiver] at hr; exact hr.elim
  appended r x d k hx _ := by simp [History.empty] at hx

theorem received_subset (H : History) (ev : Option Event) (d : ℕ) : H.received d ⊆ (H.after ev).received d := by
  rw [History.after_received]
  exact List.subset_append_left _ _

theorem verified_subset (H : History) (ev : Option Event) (d : ℕ) : H.verified d ⊆ (H.after ev).verified d := by
  rw [History.after_verified]
  exact List.subset_append_left _ _

theorem verified_ne_nil (ev : Option Event) {d : ℕ} (h : H.verified d ≠ []) : (H.after ev).verified d ≠ [] := by
  rw [History.after_verified]
  simp [h]

/-- What an appended entry says stays true. -/
theorem Provenance.entry (h : Provenance s H) (ev : Option Event) {r d k : ℕ} {x : Entry}
    (hx : x ∈ H.appended r) (ho : x.origin = some (d, k)) :
    Verified ((H.after ev).verified d) x.message ∧ (H.after ev).verified r ≠ [] := by
  obtain ⟨h1, h2⟩ := h.appended r x d k hx ho
  exact ⟨h1.mono (verified_subset H ev d), verified_ne_nil ev h2⟩

/-- A step that reads no frame and appends at most pings. -/
theorem Provenance.of_quiet (h : Provenance s H)
    (hr : ∀ x, s'.receiver x = s.receiver x ∨ s'.receiver x = .acquire)
    (hn : s'.networkDevices = s.networkDevices) (hv : ∀ d, Event.newVerified d ev = [])
    (hnew : ∀ r, ∀ x ∈ Event.newAppended H r ev, x.origin = none) : Provenance s' (H.after ev) := by
  refine ⟨fun d => ?_, fun d f hf => ?_, fun n d hd => ?_, fun x r hx => ?_, fun r x d k hx ho => ?_⟩
  · rcases hr d with he | he <;> rw [he]
    · exact (h.carried d).mono (received_subset H ev d) (verified_subset H ev d)
    · trivial
  · rw [History.after_verified, hv, List.append_nil] at hf
    exact ⟨received_subset H ev d (h.verified d f hf).1, (h.verified d f hf).2⟩
  · rw [hn] at hd
    exact verified_ne_nil ev (h.network n d hd)
  · rcases hr x with he | he <;> rw [he] at hx
    · exact verified_ne_nil ev (h.mentioned x r hx)
    · exact hx.elim
  · rw [History.after_appended] at hx
    rcases List.mem_append.1 hx with hx | hx
    · exact h.entry ev hx ho
    · rw [hnew r x hx] at ho
      cases ho

/-- What a receiver appends is the message in its hand, to a recipient of its broadcast. -/
theorem ReceiverPc.Step.appends {d : ℕ} {data : DeviceData} {network : UInt32 → Finset ℕ} {p p' : ReceiverPc}
    (h : p.Step C d data network σ ev p') {r : ℕ} {x : Entry} (hx : x ∈ Event.newAppended H r ev) :
    ∃ m rest, p = .castPush m r rest ∧ ev = some (.appended r m (some d)) ∧ x = ⟨m, some (d, H.returned d)⟩ := by
  cases h <;> simp only [Event.newAppended, List.not_mem_nil] at hx
  case castPush m r' rest =>
    split at hx
    · rename_i hr
      subst hr
      exact ⟨m, rest, rfl, rfl, List.mem_singleton.1 hx⟩
    · cases hx

theorem Provenance.step_receiver {d : ℕ} {p : ReceiverPc} (h : Provenance s H) (hsh : Shape s)
    (hm : ReceiverMove C s d σ ev p s') : Provenance s' (H.after ev) := by
  refine ⟨fun x => ?_, fun x f hf => ?_, fun n x hx => ?_, fun x r hx => ?_, fun r x d' k hx ho => ?_⟩
  · rw [hm.receiver]
    split
    · rename_i hxd
      subst hxd
      rw [History.after_received, History.after_verified]
      exact hm.step.carries (h.carried x)
    · exact (h.carried x).mono (received_subset H ev x) (verified_subset H ev x)
  · rw [History.after_verified] at hf
    rcases List.mem_append.1 hf with hf | hf
    · exact ⟨received_subset H ev x (h.verified x f hf).1, (h.verified x f hf).2⟩
    · obtain ⟨rfl, m, -, hrecv, rfl, hid, -⟩ := hm.verifies (h.carried d) hf
      refine ⟨received_subset H ev x hrecv.2, ?_⟩
      obtain ⟨b, rfl⟩ := hrecv.1
      rw [(loaded_recvd b).region (by omega)]
      exact (networkId_ntohConversions _).1 hid
  · rw [hm.networkDevices] at hx
    rcases mem_onNetwork hx with hx | ⟨hσ, -⟩
    · exact verified_ne_nil ev (h.network n x hx)
    · -- a receiver inserts its own device, with a checked message in hand
      obtain ⟨rfl, -, m, hp⟩ := hm.step.inserts (hsh.fits d) hσ
      have hc := h.carried x
      rw [hp] at hc
      obtain ⟨m₀, -, hg⟩ := hc
      exact verified_ne_nil ev hg.ne_nil
  · rw [hm.receiver] at hx
    split at hx
    · rcases hm.step.mentions hx with hx | ⟨n, hx⟩
      · exact verified_ne_nil ev (h.mentioned d r hx)
      · exact verified_ne_nil ev (h.network n r hx)
    · exact verified_ne_nil ev (h.mentioned x r hx)
  · rw [History.after_appended] at hx
    rcases List.mem_append.1 hx with hx | hx
    · exact h.entry ev hx ho
    · obtain ⟨m, rest, hp, -, rfl⟩ := hm.step.appends hx
      cases ho
      have hc := h.carried d
      have hmen := h.mentioned d r
      rw [hp] at hc hmen
      exact ⟨Verified.mono hc (verified_subset H ev d), verified_ne_nil ev (hmen (Or.inl rfl))⟩

/-- **Every step keeps the provenance.** -/
theorem Provenance.step (h : Provenance s H) (hsh : Shape s) (hm : s.Moves C a ev s') :
    Provenance s' (H.after ev) := by
  have hnone : ∀ r, ∀ x ∈ Event.newAppended H r none, x.origin = none := by
    intro r x hx
    cases hx
  cases hm with
  | accept fd hfd => exact h.of_quiet (fun _ => Or.inl rfl) rfl (fun _ => rfl) hnone
  | create fd launched networkId last hm =>
    exact h.of_quiet (fun x => Or.inl (hm.receiver x)) hm.networkDevices (fun _ => rfl) hnone
  | @handler d e σ ev p s' hm =>
    have hrec : ∀ x, s'.receiver x = s.receiver x ∨ s'.receiver x = .acquire :=
      fun x => (hm.receiver_or hsh x).imp_right And.left
    have hnet : s'.networkDevices = s.networkDevices := by rw [hm.networkDevices, hm.step.onNetwork]
    have horigin : ∀ r, ∀ x ∈ Event.newAppended H r ev, x.origin = none := fun r x hx => hm.step.origin hx
    rcases hm.step.event with rfl | ⟨m, rfl, -⟩ <;> exact h.of_quiet hrec hnet (fun _ => rfl) horigin
  | sender d e hm =>
    have hnet := hm.networkDevices.trans hm.step.onNetwork
    have horigin : ∀ r, ∀ x ∈ Event.newAppended H r ev, x.origin = none := fun r x hx => hm.step.origin hx
    rcases hm.step.event with rfl | ⟨m, results, rfl⟩ <;>
      exact h.of_quiet (fun x => Or.inl (hm.receiver x)) hnet (fun _ => rfl) horigin
  | receiver d e hm => exact h.step_receiver hsh hm
  | wake d hw => exact h.of_quiet (fun _ => Or.inl rfl) rfl (fun _ => rfl) hnone

theorem Provenance.reach {G : Server × History → Action → Prop} (h : (observed C).ReachWhen G (s, H)) :
    Provenance s H :=
  observed_induct (fun _ => Provenance.starts) (fun _ _ _ _ _ hr hi _ hm => hi.step (Shape.reach hr) hm) h

/-- **What a step appends**: a ping, or the message that a receiver broadcasts. -/
theorem newAppended_cases (hm : s.Moves C a ev s') {r : ℕ} {x : Entry} (hx : x ∈ Event.newAppended H r ev) :
    (∃ d m, s.handler d = .push m ∧ x = ⟨m, none⟩) ∨
      ∃ d m rest, s.receiver d = .castPush m r rest ∧ x = ⟨m, some (d, H.returned d)⟩ := by
  cases hm with
  | accept fd hfd => cases hx
  | create fd launched networkId last hm => cases hx
  | wake d hw => cases hx
  | handler d e hm =>
    rcases hm.step.event with rfl | ⟨m, rfl, -, hp⟩
    · cases hx
    · simp only [Event.newAppended, Option.map_none] at hx
      split at hx
      · exact Or.inl ⟨d, m, hp, List.mem_singleton.1 hx⟩
      · cases hx
  | sender d e hm => rcases hm.step.event with rfl | ⟨m, results, rfl⟩ <;> cases hx
  | receiver d e hm =>
    obtain ⟨m, rest, hp, -, rfl⟩ := hm.step.appends hx
    exact Or.inr ⟨d, m, rest, hp, rfl⟩

/-- What the server queues of its own was prepared by a handler. -/
theorem appended_prepared {G : Server × History → Action → Prop} {K : Server → Action → Prop}
    {D : NetworkMessage → List UInt8 → Prop} (hG : ∀ p a, G p a → K p.1 a)
    (hD : ∀ s, (relay C).ReachWhen K s → ∀ d m, s.handler d = .sign m → D m s.digest)
    (h : (observed C).ReachWhen G (s, H)) : ∀ r, ∀ x ∈ H.appended r, x.origin = none →
      ∃ stack digest, D (unsignedPing stack) digest ∧ x.message = signPing digest (unsignedPing stack) := by
  refine observed_induct (I := fun _ H => ∀ r, ∀ x ∈ H.appended r, x.origin = none →
    ∃ stack digest, D (unsignedPing stack) digest ∧ x.message = signPing digest (unsignedPing stack))
    (fun s _ r x hx _ => by cases hx) (fun s H a s' hr _ hi _ hm r x hx ho => ?_) h
  rw [History.after_appended] at hx
  rcases List.mem_append.1 hx with hx | hx
  · exact hi r x hx ho
  · rcases newAppended_cases hm hx with ⟨d, m, hp, rfl⟩ | ⟨d, m, rest, -, rfl⟩
    · have hprep := prepared_reach hD (hr.unrecorded hG) d
      rw [hp] at hprep
      exact hprep
    · cases ho

/-- **What the server queues of its own are pings**, signed with some digest. -/
theorem appended_ping {G : Server × History → Action → Prop} (h : (observed C).ReachWhen G (s, H)) {r : ℕ}
    {x : Entry} (hx : x ∈ H.appended r) (ho : x.origin = none) :
    ∃ stack digest, x.message = signPing digest (unsignedPing stack) := by
  obtain ⟨stack, digest, -, heq⟩ := appended_prepared (K := fun _ _ => True) (D := fun _ _ => True)
    (fun _ _ _ => trivial) (fun _ _ _ _ _ => trivial) h r x hx ho
  exact ⟨stack, digest, heq⟩

/-- In the runs that spare the pings, it is their own. -/
theorem appended_signed {G : Server × History → Action → Prop} (hG : ∀ p a, G p a → SparesPings p.1 a)
    (h : (observed C).ReachWhen G (s, H)) {r : ℕ} {x : Entry} (hx : x ∈ H.appended r) (ho : x.origin = none) :
    ∃ stack, x.message = createPingMessage C stack := by
  obtain ⟨stack, digest, rfl, heq⟩ := appended_prepared (D := fun m digest => digest = digestOf C m)
    hG (fun _ hs _ _ hp => signs_own hs hp) h r x hx ho
  exact ⟨stack, heq⟩

/-! ## The check, when nobody disturbs it -/

/-- A signed message for network 0 is authentic. -/
theorem authentic_of_signed {m : NetworkMessage} (hrecv : Received received m)
    (hid : (ntohConversions m).bytes.networkId = 0) :
    isSignedBy (digestOf C (ntohConversions m)) (ntohConversions m) = Frame.isAuthentic C m.wire := by
  rw [← isVerified_received hrecv]
  unfold isVerified
  rw [if_neg (not_not.2 hid)]

/-- What passes the check is authentic, if no comparison is fooled. -/
theorem authentic_of_unfooled {G : Server × History → Action → Prop}
    (hG : ∀ s H, (observed C).ReachWhen G (s, H) → Unfooled C s) (h : (observed C).ReachWhen G (s, H)) (d : ℕ) :
    ∀ f ∈ H.verified d, Frame.isAuthentic C f = true := by
  refine observed_induct (I := fun _ H => ∀ d, ∀ f ∈ H.verified d, Frame.isAuthentic C f = true)
    (fun s _ d f hf => by simp [History.empty] at hf) (fun s H a s' hr _ ih _ hm d f hf => ?_) h d
  rw [History.after_verified] at hf
  generalize s.event a = ev at hm hf
  rcases List.mem_append.1 hf with hf | hf
  · exact ih d f hf
  · cases hm with
    | receiver x e hm =>
      obtain ⟨rfl, m, hp, hrecv, rfl, hid, hsigned⟩ := hm.verifies ((Provenance.reach hr).carried x) hf
      exact (authentic_of_signed hrecv hid).symm.trans (hG s H hr _ _ hp hsigned)
    | handler x e hm => rcases hm.step.event with rfl | ⟨m, rfl, -⟩ <;> cases hf
    | sender x e hm => rcases hm.step.event with rfl | ⟨m, results, rfl⟩ <;> cases hf
    | _ => cases hf

/-- The runs that spare the checks are among those that keep them. -/
theorem keepsChecks_observed {G : Server × History → Action → Prop} (hG : ∀ p a, G p a → SparesChecks p.1 a)
    (h : (observed C).ReachWhen G (s, H)) : (observed C).ReachWhen (fun p => KeepsChecks C p.1) (s, H) := by
  refine h.mono_reach fun p a hr hg => (hG p a hg).keeps ?_
  have hreach : (relay C).Reach p.1 := Runs.Machine.ReachWhen.unrecorded hr fun _ _ _ => trivial
  exact Shape.reach hreach

theorem unfooled_observed (h : (observed C).ReachWhen (fun p => KeepsChecks C p.1) (s, H)) : Unfooled C s :=
  Unfooled.reach (h.unrecorded fun _ _ hg => hg)

/-- **What passes the check is authentic**, in the runs that spare the checks. -/
theorem verified_authentic {G : Server × History → Action → Prop} (hG : ∀ p a, G p a → SparesChecks p.1 a)
    (h : (observed C).ReachWhen G (s, H)) (d : ℕ) : ∀ f ∈ H.verified d, Frame.isAuthentic C f = true :=
  authentic_of_unfooled (fun _ _ hr => unfooled_observed hr) (keepsChecks_observed hG h) d

/-- **A receiver decides as `verdict` does**, in the runs that spare the checks: it stops at the
comparison exactly if the message is rejected, and at the dispatch exactly if it is a ping. -/
theorem decides_verdict {G : Server × History → Action → Prop} (hG : ∀ p a, G p a → SparesChecks p.1 a)
    (h : (observed C).ReachWhen G (s, H)) {d : ℕ} {e : Env} (hs : s.step C (.receiver d e) = some s')
    (m : NetworkMessage) :
    (s.receiver d = .check m → s'.receiver d = .last → verdict C m = .rejected) ∧
    (s.receiver d = .compare (ntohConversions m) → (s'.receiver d = .last ↔ verdict C m = .rejected)) ∧
    (s.receiver d = .dispatch (ntohConversions m) → (s'.receiver d = .last ↔ verdict C m = .ping) ∧
      ∀ k, s'.receiver d = .castLock k ↔ verdict C m = .broadcast k 0) := by
  have hprov := Provenance.reach h
  have hcarried := hprov.carried d
  have hmoves := Server.step_moves hs
  generalize s.event (.receiver d e) = ev at hmoves
  cases hmoves with
  | @receiver _ _ σ _ p _ hm =>
    have hpc : s'.receiver d = p := by rw [hm.receiver, if_pos rfl]
    have hstep := hm.step
    rw [hpc]
    refine ⟨fun hq hlast => ?_, fun hq => ?_, fun hq => ?_⟩ <;> rw [hq] at hstep hcarried
    · -- it is for another network
      subst hlast
      cases hstep with
      | otherNetwork _ hid =>
        unfold verdict isVerified
        simp [hid]
    · obtain ⟨m₀, -, hrecv, hid⟩ := hcarried
      have hdigest := compares_own (h.unrecorded hG) hq
      have hverified : isVerified C (ntohConversions m) = isSignedBy s.digest (ntohConversions m) := by
        unfold isVerified
        rw [if_neg (not_not.2 hid), hdigest]
      rw [hm.compares _ hq, ← hverified]
      unfold verdict
      dsimp only
      cases isVerified C (ntohConversions m) with
      | false => simp
      | true => simp only [if_true, Bool.not_true, Bool.false_eq_true, if_false]; split <;> simp
    · obtain ⟨m₀, heq, hv⟩ := hcarried
      obtain ⟨b, rfl⟩ := hv.whole
      have hm₀ : m = recvd b := by
        rw [← htonConversions_ntohConversions m, heq, htonConversions_ntohConversions]
      have hauth := verified_authentic hG h d _ hv.mem
      rw [hm₀, verdict_eq, if_pos hauth, ← isPing_recvd]
      have hback : htonConversions (ntohConversions m) = recvd b := by rw [htonConversions_ntohConversions, hm₀]
      cases hstep with
      | ping _ hping =>
        rw [hback] at hping
        simp [hping]
      | accept _ hping =>
        rw [hback] at hping ⊢
        simp [hping]

/-! ## A frame that is not authentic -/

/-- No device's record and no registry differs. -/
def Server.SameData (s s' : Server) : Prop := s'.device = s.device ∧ s'.networkDevices = s.networkDevices

/-- A step that changes at most the static buffer of `HMAC`. -/
theorem ReceiverMove.sameData {d : ℕ} {p : ReceiverPc} (hm : ReceiverMove C s d σ ev p s')
    (hσ : σ = .skip ∨ ∃ digest, σ = .hmac digest) : s.SameData s' := by
  rcases hσ with rfl | ⟨digest, rfl⟩ <;> exact ⟨funext hm.device, hm.networkDevices⟩

theorem ReceiverPc.Step.of_check {d : ℕ} {data : DeviceData} {network : UInt32 → Finset ℕ} {m : NetworkMessage}
    {p : ReceiverPc} (h : ReceiverPc.Step C d data network (.check m) σ ev p) :
    (σ = .skip ∨ ∃ digest, σ = .hmac digest) ∧ (p = .last ∨ p = .compare (ntohConversions m)) := by
  cases h with
  | otherNetwork _ hid => exact ⟨Or.inl rfl, Or.inl rfl⟩
  | hmac _ hid => exact ⟨Or.inr ⟨_, rfl⟩, Or.inr rfl⟩

theorem ReceiverPc.Step.of_compare {d : ℕ} {data : DeviceData} {network : UInt32 → Finset ℕ} {m : NetworkMessage}
    {p : ReceiverPc} (h : ReceiverPc.Step C d data network (.compare m) σ ev p) : σ = .skip := by
  cases h <;> rfl

theorem ReceiverPc.Step.of_last {d : ℕ} {data : DeviceData} {network : UInt32 → Finset ℕ}
    {p : ReceiverPc} (h : ReceiverPc.Step C d data network .last σ ev p) :
    σ = .skip ∧ p = .test data.lastMessageFromClient := by
  cases h
  exact ⟨rfl, rfl⟩

theorem ReceiverPc.Step.of_read {d : ℕ} {data : DeviceData} {network : UInt32 → Finset ℕ}
    {p : ReceiverPc} (h : ReceiverPc.Step C d data network .read σ ev p) :
    σ = .skip ∧ (p = .leave ∨ ∃ b, p = .check (recvd b)) := by
  cases h with
  | read b => exact ⟨rfl, Or.inr ⟨b, rfl⟩⟩
  | readFails => exact ⟨rfl, Or.inl rfl⟩

/-- **Only authentic frames have an effect**, in a state and the history of the run that led to it:

1. the steps of a receiver that read a frame, check one that is not authentic and then go on to
   the next change no device's record and not the registry;
2. every entry that a broadcast appended is, in all its bytes and its length, a frame that was
   received and passed the check, which only authentic frames do;
3. relayed frames are appended only for connections on which a frame has passed the check. -/
def OnlyAuthentic (C : Crypto) (s : Server) (H : History) : Prop :=
  (∀ d e s', s.step C (.receiver d e) = some s' →
    (s.receiver d = .read → s.SameData s' ∧ (s'.receiver d = .leave ∨ ∃ b, s'.receiver d = .check (recvd b))) ∧
    (∀ m, s.receiver d = .check m →
      s.SameData s' ∧ (s'.receiver d = .last ∨ s'.receiver d = .compare (ntohConversions m))) ∧
    (∀ m, s.receiver d = .compare (ntohConversions m) → Frame.isAuthentic C m.wire = false →
      s.SameData s' ∧ s'.receiver d = .last) ∧
    (s.receiver d = .last → s.SameData s' ∧ s'.receiver d = .test (s.device d).lastMessageFromClient)) ∧
  (∀ r x d k, x ∈ H.appended r → x.origin = some (d, k) →
    x.message.messageLength = headerLength + x.message.bytes.payloadLength.toNat ∧
      x.message.wire ∈ H.verified d) ∧
  (∀ d f, f ∈ H.verified d → f ∈ H.received d ∧ Frame.isAuthentic C f = true) ∧
  (∀ r x d k, x ∈ H.appended r → x.origin = some (d, k) → H.verified r ≠ [])

/-- Where no comparison is fooled, only authentic frames have an effect. -/
theorem OnlyAuthentic.of_unfooled (hprov : Provenance s H) (hun : Unfooled C s)
    (hauth : ∀ d, ∀ f ∈ H.verified d, Frame.isAuthentic C f = true) : OnlyAuthentic C s H := by
  refine ⟨fun d e s' hs => ?_, fun r x d k hx ho => ?_, fun d f hf => ⟨(hprov.verified d f hf).1, hauth d f hf⟩,
    fun r x d k hx ho => (hprov.appended r x d k hx ho).2⟩
  · cases Server.step_moves hs with
    | @receiver _ _ σ ev p _ hm =>
      have hpc : s'.receiver d = p := by rw [hm.receiver, if_pos rfl]
      refine ⟨fun hp => ?_, fun m hp => ?_, fun m hp hbad => ?_, fun hp => ?_⟩
      · obtain ⟨hσ, hto⟩ := (hp ▸ hm.step).of_read
        exact ⟨hm.sameData (Or.inl hσ), hpc ▸ hto⟩
      · obtain ⟨hσ, hto⟩ := (hp ▸ hm.step).of_check
        exact ⟨hm.sameData hσ, hpc ▸ hto⟩
      · have hσ := (hp ▸ hm.step).of_compare
        refine ⟨hm.sameData (Or.inl hσ), ?_⟩
        have hc := hprov.carried d
        rw [hp] at hc
        obtain ⟨hrecv, hid⟩ := ReceiverPc.Carries.of_compare hc
        rw [hpc, hm.compares _ hp, if_neg fun hsigned => ?_]
        have hown := hun d _ hp hsigned
        rw [authentic_of_signed hrecv hid, hbad] at hown
        cases hown
      · obtain ⟨hσ, hto⟩ := (hp ▸ hm.step).of_last
        exact ⟨hm.sameData (Or.inl hσ), hpc.trans hto⟩
  · obtain ⟨hv, -⟩ := hprov.appended r x d k hx ho
    obtain ⟨b, hb⟩ := hv.whole
    exact ⟨by rw [hb]; rfl, hv.mem⟩

/-- A forged frame whose comparison is fooled goes on to the time stamp. -/
theorem not_onlyAuthentic {d : ℕ} {m : NetworkMessage} (hp : s.receiver d = .compare (ntohConversions m))
    (hfooled : isSignedBy s.digest (ntohConversions m) = true) (hbad : Frame.isAuthentic C m.wire = false) :
    ¬ OnlyAuthentic C s H := by
  intro hall
  have hs : s.step C (.receiver d {}) =
      some { s with receiver := Function.update s.receiver d (.stamp (ntohConversions m)) } := by
    simp [Server.step, hp, ReceiverPc.next, hfooled, Server.exec]
  obtain ⟨-, hlast⟩ := (hall.1 d {} _ hs).2.2.1 m hp hbad
  simp at hlast

/-- **Only authentic frames have an effect exactly as long as `KeepsChecks` holds.** In every run whose
steps keep the checks, only authentic frames have an effect; and a step that does not keep them, in any
run, leads to a state in which a receiver is about to take a frame that is not authentic. -/
theorem authentic_only (C : Crypto) :
    (∀ s H, (observed C).ReachWhen (fun p => KeepsChecks C p.1) (s, H) → OnlyAuthentic C s H) ∧
      ∀ s H a s', (observed C).Reach (s, H) → s.step C a = some s' → ¬ KeepsChecks C s a →
        ¬ OnlyAuthentic C s' (H.record s a) := by
  refine ⟨fun s H h => ?_, fun s H a s' h hs hbad => ?_⟩
  · exact .of_unfooled (Provenance.reach h) (unfooled_observed h)
      (authentic_of_unfooled (fun _ _ hr => unfooled_observed hr) h)
  · simp only [KeepsChecks, not_forall, Bool.not_eq_true] at hbad
    obtain ⟨m', hcall, d, m, hp, hfits, hforged⟩ := hbad
    have hreach : (relay C).Reach s := h.unrecorded fun _ _ _ => trivial
    have hsh := Shape.reach hreach
    obtain ⟨hdigest, hp'⟩ := replaced hsh hs hcall hp
    have hc := (Provenance.reach h).carried d
    rw [hp] at hc
    obtain ⟨m₀, rfl, hrecv, hid⟩ := hc
    refine not_onlyAuthentic hp' ?_ ((authentic_of_signed hrecv hid).symm.trans hforged)
    rw [hdigest]
    exact hfits

/-- Device 0 joins with a message and broadcasts it to itself. -/
def oneBroadcast : List Action := List.flatten
  [[.accept 4, .create true 0 0], .replicate 3 (.handler 0 {}), .replicate 3 (.receiver 0 {}),
    [.receiver 0 { read := some zeroFrame }], .replicate 14 (.receiver 0 {})]

theorem reach_oneBroadcast : ∃ s H, (observed Crypto.zero).ReachWhen (fun p a => SparesChecks p.1 a) (s, H) ∧
    ∃ x ∈ H.appended 0, x.origin = some (0, 0) := by
  have hrun : ((observed Crypto.zero).runWhen (fun p a => SparesChecks p.1 a) (Server.fresh, .empty) oneBroadcast).any
      (fun p => (p.2.appended 0).any fun x => x.origin = some (0, 0)) = true := by decide +kernel
  obtain ⟨⟨s, H⟩, hr, hs⟩ := Runs.Machine.exists_reachWhen (observed_init _ Server.fresh_starts) hrun
  obtain ⟨x, hx, ho⟩ := List.any_eq_true.1 hs
  exact ⟨s, H, hr, x, hx, of_decide_eq_true ho⟩

theorem authentic_only_oneBroadcast : ∃ s H, (observed Crypto.zero).ReachWhen (fun p => KeepsChecks .zero p.1) (s, H) ∧
    ∃ x ∈ H.appended 0, x.origin = some (0, 0) ∧ x.message.wire ∈ H.verified 0 := by
  obtain ⟨s, H, hr, x, hx, ho⟩ := reach_oneBroadcast
  have hr := keepsChecks_observed (fun _ _ hg => hg) hr
  exact ⟨s, H, hr, x, hx, ho, (((authentic_only .zero).1 s H hr).2.1 0 x 0 0 hx ho).2⟩

/-- An HMAC that repeats the first byte it covers, which is the length of the payload. -/
def byLength : Crypto := ⟨fun _ data => Vector.replicate 32 (data.headD 0), fun _ _ _ => 0⟩

/-- A frame with one byte of payload, and with the signature of a ping. -/
def forgedFrame : Packed := fun i => if i = 8 then 1 else 0

/-- Device 0 receives the forged frame. Its handler calls `HMAC` for a ping before its receiver
compares the digest. -/
def forged : List Action := List.flatten
  [[.accept 4, .create true 0 0], .replicate 3 (.handler 0 {}), .replicate 3 (.receiver 0 {}),
    [.receiver 0 { read := some forgedFrame }, .receiver 0 {}, .handler 0 {}], .replicate 13 (.receiver 0 {})]

/-- The forged frame is broadcast. -/
theorem forged_relayed : ∃ s H, (observed byLength).Reach (s, H) ∧
    (∃ x ∈ H.appended 0, x.origin = some (0, 0) ∧ Frame.isAuthentic byLength x.message.wire = false) ∧
    ¬ OnlyAuthentic byLength s H := by
  have hrun : ((observed byLength).run (Server.fresh, .empty) forged).any (fun p => (p.2.appended 0).any fun x =>
      x.origin = some (0, 0) ∧ Frame.isAuthentic byLength x.message.wire = false) = true := by decide +kernel
  obtain ⟨⟨s, H⟩, hr, hs⟩ := Runs.Machine.exists_reach (observed_init _ Server.fresh_starts) hrun
  obtain ⟨x, hx, hforged⟩ := List.any_eq_true.1 hs
  obtain ⟨ho, hbad⟩ := of_decide_eq_true hforged
  refine ⟨s, H, hr, ⟨x, hx, ho, hbad⟩, fun hall => ?_⟩
  have hauth := (hall.2.2.1 0 _ (hall.2.1 0 x 0 0 hx ho).2).2
  rw [hbad] at hauth
  cases hauth

end ServerRoom.Relay
