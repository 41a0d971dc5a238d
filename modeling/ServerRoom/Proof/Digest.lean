import ServerRoom.Lib.Sharing
import ServerRoom.Proof.Ownership
import ServerRoom.Proof.Verdict

/-!
# The digest that the threads share

`HMAC` leaves its digest in one static buffer. Its callers use it in a later step and hold no
lock meanwhile, so that the call of another thread in between replaces it.

* `digest_step`: a step leaves the buffer alone, or is a call of `HMAC`.
* `FindsOk.reach`: what holds of the digests that the threads use, in the runs whose calls of
  `HMAC` respect it. So each receiver compares its own digest (`compares_own`) and each handler
  signs with its own (`signs_own`), as long as no thread calls `HMAC` in between; and no
  comparison is fooled (`Unfooled.reach`), as long as no digest comes in between that fits.
* `prepared_reach`: what a handler queues is a ping in every run, whose signature is what the
  buffer held; `signPing_marks`: its marks do not depend on that.
-/

namespace ServerRoom.Relay

open ByteMem Sharing

variable {C : Crypto} {s s' : Server} {a : Action} {ev : Option Event} {σ : Stmt}

/-- The message whose digest a handler has still to use. -/
def HandlerPc.hashed : HandlerPc → Option NetworkMessage
  | .sign m => some m
  | _ => none

def ReceiverPc.hashed : ReceiverPc → Option NetworkMessage
  | .compare m => some m
  | _ => none

def Server.hashed (s : Server) : Thread → Option NetworkMessage
  | .handler d => (s.handler d).hashed
  | .sender _ => none
  | .receiver d => (s.receiver d).hashed

/-- The message for which a handler calls `HMAC` in its next step. -/
def HandlerPc.hashes (e : Env) : HandlerPc → Option NetworkMessage
  | .hmac => some (unsignedPing e.stack)
  | _ => none

def ReceiverPc.hashes : ReceiverPc → Option NetworkMessage
  | .check m => if (ntohConversions m).bytes.networkId = 0 then some (ntohConversions m) else none
  | _ => none

/-- The message for which a step calls `HMAC`. -/
def Server.hashes (s : Server) : Action → Option NetworkMessage
  | .handler d e => (s.handler d).hashes e
  | .receiver d _ => (s.receiver d).hashes
  | _ => none

/-- No thread calls `HMAC` while a receiver has still to compare its digest. -/
def SparesChecks (s : Server) (a : Action) : Prop :=
  s.hashes a ≠ none → ∀ d < s.created, (s.receiver d).hashed = none

/-- No thread calls `HMAC` while a handler has still to sign its ping. -/
def SparesPings (s : Server) (a : Action) : Prop :=
  s.hashes a ≠ none → ∀ d < s.created, (s.handler d).hashed = none

instance (s : Server) (a : Action) : Decidable (SparesChecks s a) :=
  inferInstanceAs (Decidable (_ → ∀ d < s.created, (s.receiver d).hashed = none))

instance (s : Server) (a : Action) : Decidable (SparesPings s a) :=
  inferInstanceAs (Decidable (_ → ∀ d < s.created, (s.handler d).hashed = none))

/-- **No frame gets a signature that it does not have**: when a step calls `HMAC` while a receiver has still to
compare its digest, the new digest does not sign the receiver's frame, unless its own does too. -/
def KeepsChecks (C : Crypto) (s : Server) (a : Action) : Prop :=
  ∀ m', s.hashes a = some m' → ∀ d m, s.receiver d = .compare m →
    isSignedBy (digestOf C m') m = true → isSignedBy (digestOf C m) m = true

/-! ## What is in the buffer -/

theorem HandlerPc.Step.digest {d : ℕ} {st : ConnectionState} {p p' : HandlerPc} (h : p.Step C d st σ ev p') :
    p = .hmac ∨ (∀ e, p.hashes e = none) ∧ (∀ x, σ.onDigest x = x) ∧ p'.hashed = none := by
  cases h with
  | hmac stack => exact Or.inl rfl
  | _ => exact Or.inr ⟨fun _ => rfl, fun _ => rfl, rfl⟩

/-- The call of `HMAC` in `create_ping_message`. -/
theorem Server.step_hmac {d : ℕ} {e : Env} (hp : s.handler d = .hmac) (hs : s.step C (.handler d e) = some s') :
    s'.digest = digestOf C (unsignedPing e.stack) ∧ s'.hashed (.handler d) = some (unsignedPing e.stack) := by
  simp only [Server.step, hp, HandlerPc.next, Server.exec, Option.bind_some, Option.map_some, Option.some.injEq] at hs
  subst hs
  simp [Server.hashed, HandlerPc.hashed]

theorem SenderPc.Step.digest {d : ℕ} {data : DeviceData} {p p' : SenderPc} (h : p.Step d data σ ev p')
    (x : List UInt8) : σ.onDigest x = x := by
  cases h <;> rfl

theorem ReceiverPc.Step.digest {d : ℕ} {data : DeviceData} {network : UInt32 → Finset ℕ} {p p' : ReceiverPc}
    (h : p.Step C d data network σ ev p') :
    (∃ m, p.hashes = some m ∧ σ = .hmac (digestOf C m) ∧ p'.hashed = some m) ∨
      p.hashes = none ∧ (∀ x, σ.onDigest x = x) ∧ p'.hashed = none := by
  cases h with
  | hmac m hid => exact Or.inl ⟨ntohConversions m, if_pos hid, rfl, rfl⟩
  | otherNetwork m hid => exact Or.inr ⟨if_neg hid, fun _ => rfl, rfl⟩
  | _ => exact Or.inr ⟨rfl, fun _ => rfl, rfl⟩

/-- The receivers after a step of a handler have nothing more to use. -/
theorem HandlerMove.hashed_receiver {d : ℕ} {p : HandlerPc} (hm : HandlerMove C s d σ ev p s') (hsh : Shape s)
    {x : ℕ} {m : NetworkMessage} (hx : (s'.receiver x).hashed = some m) : (s.receiver x).hashed = some m := by
  rcases hm.receiver_or hsh x with he | ⟨he, -⟩ <;> rw [he] at hx
  · exact hx
  · cases hx

/-- **What a step does to the buffer**: nothing, or it is a call of `HMAC`, whose thread has then
to use the digest. Nobody else starts to wait for one. -/
theorem digest_step (hsh : Shape s) (hs : s.step C a = some s') :
    (s.hashes a = none ∧ s'.digest = s.digest ∧ ∀ t m, s'.hashed t = some m → s.hashed t = some m) ∨
      ∃ t m, s.hashes a = some m ∧ s'.digest = digestOf C m ∧ s'.hashed t = some m ∧
        ∀ u, u ≠ t → ∀ m', s'.hashed u = some m' → s.hashed u = some m' := by
  have hm := Server.step_moves hs
  generalize s.event a = ev at hm
  cases hm with
  | accept fd hfd => exact Or.inl ⟨rfl, rfl, fun t m ht => by cases t <;> exact ht⟩
  | wake d hw => exact Or.inl ⟨rfl, rfl, fun t m ht => by cases t <;> exact ht⟩
  | create fd launched networkId last hm =>
    refine Or.inl ⟨rfl, hm.digest, fun t m ht => ?_⟩
    cases t with
    | handler x =>
      simp only [Server.hashed] at ht ⊢
      rw [hm.handler] at ht
      split at ht
      · rcases hm.start with rfl | rfl <;> cases ht
      · exact ht
    | sender x => cases ht
    | receiver x =>
      simp only [Server.hashed] at ht ⊢
      rwa [hm.receiver] at ht
  | @handler d e σ ev p s' hm =>
    have hother : ∀ u, u ≠ .handler d → ∀ m', s'.hashed u = some m' → s.hashed u = some m' := by
      intro u hu m' hm'
      cases u with
      | handler x =>
        simp only [Server.hashed] at hm' ⊢
        rw [hm.handler, if_neg fun he : x = d => hu (by rw [he])] at hm'
        exact hm'
      | sender x => cases hm'
      | receiver x => exact hm.hashed_receiver hsh hm'
    rcases hm.step.digest with hp | ⟨hno, hσ, hp⟩
    · obtain ⟨hdigest, hown⟩ := Server.step_hmac hp hs
      exact Or.inr ⟨.handler d, _, by simp only [Server.hashes, hp]; rfl, hdigest, hown, hother⟩
    · refine Or.inl ⟨hno e, hm.digest.trans (hσ _), fun t m ht => ?_⟩
      by_cases htd : t = .handler d
      · subst htd
        simp only [Server.hashed] at ht
        rw [hm.handler, if_pos rfl, hp] at ht
        cases ht
      · exact hother t htd m ht
  | sender d e hm =>
    refine Or.inl ⟨rfl, hm.digest.trans (hm.step.digest _), fun t m ht => ?_⟩
    cases t with
    | handler x => simpa only [Server.hashed, hm.handler] using ht
    | sender x => cases ht
    | receiver x => simpa only [Server.hashed, hm.receiver] using ht
  | @receiver d e σ ev p s' hm =>
    have hother : ∀ u, u ≠ .receiver d → ∀ m', s'.hashed u = some m' → s.hashed u = some m' := by
      intro u hu m' hm'
      cases u with
      | handler x => simpa only [Server.hashed, hm.handler] using hm'
      | sender x => cases hm'
      | receiver x =>
        simp only [Server.hashed] at hm' ⊢
        rw [hm.receiver, if_neg fun he : x = d => hu (by rw [he])] at hm'
        exact hm'
    have hown : s'.hashed (.receiver d) = p.hashed := by
      simp only [Server.hashed]
      rw [hm.receiver, if_pos rfl]
    rcases hm.step.digest with ⟨m, hcall, rfl, hp⟩ | ⟨hno, hσ, hp⟩
    · exact Or.inr ⟨.receiver d, m, hcall, hm.digest, hown.trans hp, hother⟩
    · refine Or.inl ⟨hno, hm.digest.trans (hσ _), fun t m ht => ?_⟩
      by_cases htd : t = .receiver d
      · rw [htd, hown, hp] at ht
        cases ht
      · exact hother t htd m ht

/-- What each thread of `U` finds is acceptable for its message. -/
def FindsOk (U : Set Thread) (ok : NetworkMessage → List UInt8 → Prop) (s : Server) : Prop :=
  Kept U s.hashed ok s.digest

variable {U : Set Thread} {ok : NetworkMessage → List UInt8 → Prop}

theorem FindsOk.starts (h : s.Starts) : FindsOk U ok s := by
  intro t _ m ht
  cases t <;> simp [Server.hashed, h.handler, h.receiver, HandlerPc.hashed, ReceiverPc.hashed] at ht

/-- **A step keeps this**, if the digest that it stores is acceptable for those who wait. -/
theorem FindsOk.step (h : FindsOk U ok s) (hown : ∀ m, ok m (digestOf C m)) (hsh : Shape s)
    (hs : s.step C a = some s')
    (hstores : ∀ m', s.hashes a = some m' → ∀ t ∈ U, ∀ m, s.hashed t = some m → ok m (digestOf C m')) :
    FindsOk U ok s' := by
  unfold FindsOk
  rcases digest_step hsh hs with ⟨-, hd, hsame⟩ | ⟨t, m, hcall, hd, ht, hother⟩ <;> rw [hd]
  · exact Kept.mono h hsame
  · exact Kept.store ht (hown m) hother (hstores m hcall)

theorem FindsOk.reach {G : Server → Action → Prop} (hown : ∀ m, ok m (digestOf C m))
    (hG : ∀ s a, Shape s → G s a → ∀ m', s.hashes a = some m' → ∀ t ∈ U, ∀ m, s.hashed t = some m →
      ok m (digestOf C m')) (h : (relay C).ReachWhen G s) : FindsOk U ok s :=
  h.induct (fun _ hi => FindsOk.starts hi) fun s a _ hr hi hg hs =>
    have hsh : Shape s := Shape.reach (hr.mono fun _ _ _ => trivial)
    hi.step hown hsh hs (hG s a hsh hg)

/-- A receiver that waits for a digest belongs to a device that exists. -/
theorem Shape.hashed_receiver (h : Shape s) {d : ℕ} {m : NetworkMessage} (hd : (s.receiver d).hashed = some m) :
    d < s.created := by
  refine h.lt_created fun habs => ?_
  rw [habs] at hd
  cases hd

theorem Shape.hashed_handler (h : Shape s) {d : ℕ} {m : NetworkMessage} (hd : (s.handler d).hashed = some m) :
    d < s.created := by
  refine Nat.lt_of_not_le fun hle => ?_
  rw [h.handler d hle] at hd
  cases hd

/-- A step that calls `HMAC` and spares the checks finds no receiver waiting for a digest. -/
theorem SparesChecks.free (h : SparesChecks s a) (hsh : Shape s) (hcall : s.hashes a ≠ none) (d : ℕ) :
    (s.receiver d).hashed = none := by
  cases hw : (s.receiver d).hashed with
  | none => rfl
  | some m =>
    rw [← hw]
    exact h hcall d (hsh.hashed_receiver hw)

theorem SparesPings.free (h : SparesPings s a) (hsh : Shape s) (hcall : s.hashes a ≠ none) (d : ℕ) :
    (s.handler d).hashed = none := by
  cases hw : (s.handler d).hashed with
  | none => rfl
  | some m =>
    rw [← hw]
    exact h hcall d (hsh.hashed_handler hw)

/-- Threads for which nobody calls `HMAC` while they wait for a digest find their own. -/
theorem finds_own {G : Server → Action → Prop}
    (hG : ∀ s a, Shape s → G s a → s.hashes a ≠ none → ∀ t ∈ U, s.hashed t = none)
    (h : (relay C).ReachWhen G s) {t : Thread} (ht : t ∈ U) {m : NetworkMessage} (hw : s.hashed t = some m) :
    s.digest = digestOf C m := by
  have hfinds : FindsOk U (fun m digest => digest = digestOf C m) s := by
    refine FindsOk.reach (fun _ => rfl) (fun s a hsh hg m' hcall u hu m hm => ?_) h
    have hno := hG s a hsh hg (by simp [hcall]) u hu
    rw [hm] at hno
    cases hno
  exact hfinds t ht m hw

/-- **A receiver compares its own digest**, in the runs that spare the checks. -/
theorem compares_own (h : (relay C).ReachWhen SparesChecks s) {d : ℕ} {m : NetworkMessage}
    (hp : s.receiver d = .compare m) : s.digest = digestOf C m := by
  refine finds_own (U := {t | ∃ d, t = .receiver d}) ?_ h ⟨d, rfl⟩ (by simp only [Server.hashed, hp]; rfl)
  rintro s a hsh hg hcall _ ⟨x, rfl⟩
  exact hg.free hsh hcall x

/-- **A handler signs with its own digest**, in the runs that spare the pings. -/
theorem signs_own (h : (relay C).ReachWhen SparesPings s) {d : ℕ} {m : NetworkMessage}
    (hp : s.handler d = .sign m) : s.digest = digestOf C m := by
  refine finds_own (U := {t | ∃ d, t = .handler d}) ?_ h ⟨d, rfl⟩ (by simp only [Server.hashed, hp]; rfl)
  rintro s a hsh hg hcall _ ⟨x, rfl⟩
  exact hg.free hsh hcall x

/-- **No comparison is fooled**: what the buffer holds signs a receiver's frame only if its own digest does. -/
def Unfooled (C : Crypto) (s : Server) : Prop :=
  ∀ d m, s.receiver d = .compare m → isSignedBy s.digest m = true → isSignedBy (digestOf C m) m = true

theorem ReceiverPc.of_hashed {p : ReceiverPc} {m : NetworkMessage} (h : p.hashed = some m) : p = .compare m := by
  cases p <;> simp only [ReceiverPc.hashed, reduceCtorEq, Option.some.injEq] at h
  rw [h]

theorem Unfooled.reach (h : (relay C).ReachWhen (KeepsChecks C) s) : Unfooled C s := by
  have hfinds : FindsOk {t | ∃ d, t = .receiver d}
      (fun m digest => isSignedBy digest m = true → isSignedBy (digestOf C m) m = true) s := by
    refine FindsOk.reach (fun _ h => h) (fun s a _ hg m' hcall t ht m hw => ?_) h
    obtain ⟨x, rfl⟩ := ht
    exact hg m' hcall x m (ReceiverPc.of_hashed hw)
  exact fun d m hp => hfinds (.receiver d) ⟨d, rfl⟩ m (by simp only [Server.hashed, hp]; rfl)

/-- Another thread's call of `HMAC` replaces the digest that a receiver has still to compare. -/
theorem replaced (hsh : Shape s) (hs : s.step C a = some s') {m' m : NetworkMessage} (hcall : s.hashes a = some m')
    {d : ℕ} (hp : s.receiver d = .compare m) : s'.digest = digestOf C m' ∧ s'.receiver d = .compare m := by
  constructor
  · rcases digest_step hsh hs with ⟨hno, -⟩ | ⟨t, m₁, hcall', hd, -⟩
    · rw [hcall] at hno
      cases hno
    · rw [hcall] at hcall'
      rw [hd, Option.some.inj hcall']
  · have hm := Server.step_moves hs
    generalize s.event a = ev at hm
    cases hm with
    | handler x e hm => rw [hm.receiver_same hsh (by simp [hp]), hp]
    | receiver x e hm =>
      have hne : d ≠ x := by
        rintro rfl
        simp only [Server.hashes, hp, ReceiverPc.hashes, reduceCtorEq] at hcall
      rw [hm.receiver, if_neg hne, hp]
    | _ => cases hcall

/-- Who spares the checks keeps them. -/
theorem SparesChecks.keeps (hsh : Shape s) (h : SparesChecks s a) : KeepsChecks C s a := by
  intro m' hcall d m hp _
  have hno := h.free hsh (by simp [hcall]) d
  rw [hp] at hno
  cases hno

/-! ## What a handler has in hand -/

/-- What a handler has in hand is a ping. It is signed with a digest that `D` allows. -/
def HandlerPc.Prepared (D : NetworkMessage → List UInt8 → Prop) : HandlerPc → Prop
  | .sign m => ∃ stack, m = unsignedPing stack
  | .lock m | .push m => ∃ stack digest, D (unsignedPing stack) digest ∧ m = signPing digest (unsignedPing stack)
  | _ => True

theorem HandlerMove.prepared {D : NetworkMessage → List UInt8 → Prop} {d : ℕ} {p : HandlerPc}
    (hm : HandlerMove C s d σ ev p s') (hD : ∀ m, s.handler d = .sign m → D m s.digest)
    (hp : (s.handler d).Prepared D) : p.Prepared D := by
  have hstep := hm.step
  generalize hq : s.handler d = q at hstep hp
  cases hstep with
  | hmac stack => exact ⟨stack, rfl⟩
  | sign m digest =>
    obtain ⟨stack, rfl⟩ := hp
    rw [hm.signs _ hq]
    exact ⟨stack, s.digest, hD _ hq, rfl⟩
  | lock m => exact hp
  | _ => trivial

/-- **What the handlers have in hand, in every run.** -/
theorem prepared_reach {G : Server → Action → Prop} {D : NetworkMessage → List UInt8 → Prop}
    (hD : ∀ s, (relay C).ReachWhen G s → ∀ d m, s.handler d = .sign m → D m s.digest)
    (h : (relay C).ReachWhen G s) (d : ℕ) : (s.handler d).Prepared D := by
  refine h.induct (I := fun s => ∀ d, (s.handler d).Prepared D) (fun s hi d => ?_) (fun s a s' hr ih _ hs d => ?_) d
  · rw [Server.Starts.handler hi]
    trivial
  · cases Server.step_moves hs with
    | accept fd hfd => exact ih d
    | wake x hw => exact ih d
    | create fd launched networkId last hm =>
      rw [hm.handler]
      split
      · rcases hm.start with rfl | rfl <;> trivial
      · exact ih d
    | handler x e hm =>
      rw [hm.handler]
      split
      · exact hm.prepared (hD s hr x) (ih x)
      · exact ih d
    | sender x e hm => rw [hm.handler]; exact ih d
    | receiver x e hm => rw [hm.handler]; exact ih d

/-! ## The ping -/

/-- The fields of a ping that make it one. -/
theorem unsignedPing_fields (stack : NetworkMessage) :
    (unsignedPing stack).bytes.payloadLength = 0 ∧
      slice (unsignedPing stack).bytes 9 4 = List.replicate 4 0 ∧
      slice (unsignedPing stack).bytes 4 4 = List.replicate 4 0xFF ∧
      slice (unsignedPing stack).bytes 16 8 = List.replicate 8 0xFF := by
  have hr : ∀ k, (List.replicate k (0xFF : UInt8)).length = k := fun k => List.length_replicate
  refine ⟨?_, ?_, ?_, ?_⟩ <;>
    unfold unsignedPing Packed.setSenderIdentifier Packed.setAesVector Packed.setFutureUse2 Packed.setFutureUse1
      Packed.setHmacForNetwork Packed.setMessageType Packed.setUnixTimestamp Packed.setNetworkId
      Packed.setPayloadLength
  · rw [Packed.payloadLength_eq]
    simp (disch := simp) only [write_of_disj, store64_of_disj, store32_of_disj, put_of_ne, put_self]
  · simp (disch := simp) only [slice_write_disj, slice_store64_disj, slice_put_disj, slice_store32,
      slice_store32_disj]
    rfl
  · simp (disch := simp) only [slice_write_disj, slice_store32]
    rfl
  · simp (disch := simp [hr]) only [slice_write_disj, slice_write_eq]

variable (digest : List UInt8) (stack : NetworkMessage)

/-- The signature is the first four bytes. -/
theorem signPing_slice (m : NetworkMessage) {off len : ℕ} (h : 4 ≤ off) :
    slice (signPing digest m).bytes off len = slice m.bytes off len := by
  show slice (store32 m.bytes 0 _) off len = _
  exact slice_store32_disj _ _ (by omega)

theorem signPing_payloadLength : (signPing digest (unsignedPing stack)).bytes.payloadLength = 0 := by
  rw [← (unsignedPing_fields stack).1, Packed.payloadLength_eq, Packed.payloadLength_eq]
  unfold signPing Packed.setHmacForServer
  dsimp only
  rw [store32_of_disj _ _ (by omega)]

/-- A ping is a header without a payload. -/
theorem signPing_loaded : Loaded (signPing digest (unsignedPing stack)).bytes
    (signPing digest (unsignedPing stack)).wire := by
  unfold Loaded
  rw [signPing_payloadLength]
  rfl

/-- **A ping has its marks**, whatever it is signed with. -/
theorem signPing_marks : Frame.hasPingMarks (signPing digest (unsignedPing stack)).wire = true := by
  have hl := signPing_loaded digest stack
  obtain ⟨-, -, hmark, hvec⟩ := unsignedPing_fields stack
  refine decide_eq_true ⟨?_, ?_, ?_⟩
  · rw [hl.getD (by omega)]
    exact signPing_payloadLength digest stack
  · rw [hl.region (by omega), signPing_slice _ _ (by omega), hmark]
  · rw [hl.region (by omega), signPing_slice _ _ (by omega), hvec]

end ServerRoom.Relay
