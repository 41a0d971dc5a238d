import ServerRoom.Proof.Ownership

/-!
# Mutexes and reference counts

* `Mutexes`: the recorded owner of a mutex is the thread that stands in its section.
* `Counted`: `memory_pointers` of a device is the number of references to it: those of its
  threads, of the registry and of the broadcasts under way.
* `Listed`: a device in the registry is working, and its own receiver has not removed it.
* `Copying`: what a broadcast has yet to acquire is still in the registry.
-/

namespace ServerRoom.Relay

open Sharing

variable {C : Crypto} {s s' : Server} {a : Action} {ev : Option Event} {t : Thread} {σ : Stmt}

/-! ## Mutexes -/

/-- The owners of the mutexes are the threads in their sections. -/
structure Mutexes (s : Server) : Prop where
  buffer : Agree (fun d => (s.device d).newMessageMutex) s.buffer
  network : Agree (fun _ : Unit => s.networkMutex) fun t => if s.inNetwork t then some () else none

theorem Mutexes.starts (h : s.Starts) : Mutexes s where
  buffer d t := by
    cases t <;> simp [(h.device d).2.2.2.1, Server.buffer, h.handler, h.sender, h.receiver,
      HandlerPc.inBuffer, SenderPc.inBuffer, ReceiverPc.buffer]
  network _ t := by
    cases t <;> simp [h.networkMutex, Server.inNetwork, h.receiver, ReceiverPc.inNetwork]

theorem ThreadStep.mutex (h : ThreadStep s t σ s') (d : ℕ) :
    (s'.device d).newMessageMutex = σ.onMutex t d (s.device d).newMessageMutex := by
  rw [h.device, onDevice_newMessageMutex]

/-- A statement that neither takes nor gives back a buffer's mutex. -/
theorem ThreadStep.buffer_same (h : ThreadStep s t σ s') (hb : s'.buffer t = s.buffer t) (u : Thread) :
    s'.buffer u = s.buffer u := by
  by_cases hu : u = t
  · rw [hu]; exact hb
  · exact (h.others u hu).1

theorem ThreadStep.buffers (h : ThreadStep s t σ s') (hm : Mutexes s) :
    Agree (fun d => (s'.device d).newMessageMutex) s'.buffer := by
  have hb := h.buffer
  have hu := fun u hu => (h.others u hu).1
  have hmx := h.mutex
  cases σ <;> simp only [Stmt.Buffer] at hb <;> simp only [Stmt.onMutex] at hmx
  case lockBuffer r => exact hm.buffer.take h.ready hb.1 hmx hb.2 hu
  case unlockBuffer r => exact hm.buffer.drop hb.1 hmx hb.2 hu
  case wait r => exact hm.buffer.drop hb.1 hmx hb.2 hu
  case pushBack | signal | clear | sendMessage =>
    exact hm.buffer.same hmx (h.buffer_same (hb.2.trans hb.1.symm))
  all_goals exact hm.buffer.same hmx (h.buffer_same hb)

theorem ThreadStep.networks (h : ThreadStep s t σ s') (hm : Mutexes s) :
    Agree (fun _ : Unit => s'.networkMutex) fun t => if s'.inNetwork t then some () else none := by
  have hn := h.network
  have hmx := h.networkMutex
  have hu : ∀ u, u ≠ t → (if s'.inNetwork u then some () else none) =
      (if s.inNetwork u then some () else none) := by
    intro u hu; rw [(h.others u hu).2.1]
  have hsame : s'.inNetwork t = s.inNetwork t → ∀ u, (if s'.inNetwork u then some () else none) =
      (if s.inNetwork u then some () else none) := by
    intro hb u
    by_cases hut : u = t
    · rw [hut, hb]
    · exact hu u hut
  cases σ <;> simp only [Stmt.Network] at hn <;> simp only [Stmt.onNetworkMutex] at hmx
  case lockNetwork =>
    exact hm.network.take (k := ()) h.ready (by rw [hn.1]; rfl) (fun _ => hmx) (by rw [hn.2]; rfl) hu
  case unlockNetwork =>
    exact hm.network.drop (k := ()) (by rw [hn.1]; rfl) (fun _ => hmx) (by rw [hn.2]; rfl) hu
  case insert | erase => exact hm.network.same (fun _ => hmx) (hsame (hn.2.trans hn.1.symm))
  all_goals exact hm.network.same (fun _ => hmx) (hsame hn)

/-- Nobody holds the mutex of a device that is not created. -/
theorem buffer_lt_created (hsh : Shape s) (hk : Known s) {d : ℕ} (h : s.buffer t = some d) :
    d < s.created := by
  refine Nat.lt_of_not_le fun hle => ?_
  obtain ⟨hs, hr⟩ := hsh.absent hle
  have hst := hsh.fits d
  rw [hr] at hst
  cases t with
  | handler x =>
    simp only [Server.buffer, Option.ite_none_right_eq_some, Option.some.injEq] at h
    obtain ⟨h, rfl⟩ := h
    rw [hsh.handler x hle] at h
    cases h
  | sender x =>
    simp only [Server.buffer, Option.ite_none_right_eq_some, Option.some.injEq] at h
    obtain ⟨h, rfl⟩ := h
    rw [hs] at h
    cases h
  | receiver x =>
    have hm := hk.mentioned x d
    simp only [Server.buffer] at h
    generalize hp : s.receiver x = p at h hm
    cases p <;> simp only [ReceiverPc.buffer, Option.some.injEq, reduceCtorEq] at h <;> subst h
    case finalSignal => rw [hp] at hr; cases hr
    case finalUnlock => rw [hp] at hr; cases hr
    all_goals exact hm (by simp [ReceiverPc.Mentions]) (fits_absent hst)

theorem Mutexes.step (h : Mutexes s) (hsh : Shape s) (hk : Known s) (hm : s.Moves C a ev s') :
    Mutexes s' := by
  cases hm with
  | accept fd hfd => exact ⟨h.buffer, h.network⟩
  | create fd launched networkId last hm =>
    obtain ⟨hs, hr⟩ := hsh.absent (Nat.le_refl s.created)
    have hbuf : ∀ u, s'.buffer u = s.buffer u := by
      intro u
      cases u with
      | handler x =>
        simp only [Server.buffer, hm.handler]
        split
        · rename_i hx
          rw [hx, hsh.handler _ (Nat.le_refl _)]
          rcases hm.start with hp | hp <;> simp [hp, HandlerPc.inBuffer]
        · rfl
      | sender x => simp only [Server.buffer, hm.sender]
      | receiver x => simp only [Server.buffer, hm.receiver]
    refine ⟨h.buffer.same (fun d => ?_) hbuf, ?_⟩
    · rw [hm.device]
      split
      · rename_i hd
        subst hd
        cases hown : (s.device s.created).newMessageMutex with
        | none => rfl
        | some u => exact absurd (buffer_lt_created hsh hk ((h.buffer _ u).1 hown)) (Nat.lt_irrefl _)
      · rfl
    · have hin : ∀ u, s'.inNetwork u = s.inNetwork u := by
        intro u; cases u <;> simp [Server.inNetwork, hm.receiver]
      exact h.network.same (fun _ => hm.networkMutex) fun u => by rw [hin]
  | handler d e hm =>
    have hts := ThreadStep.of_handler hsh hm
    exact ⟨hts.buffers h, hts.networks h⟩
  | sender d e hm =>
    have hts := ThreadStep.of_sender hm
    exact ⟨hts.buffers h, hts.networks h⟩
  | receiver d e hm =>
    have hts := ThreadStep.of_receiver hsh hm
    exact ⟨hts.buffers h, hts.networks h⟩
  | wake d hw =>
    refine ⟨h.buffer.same (fun _ => rfl) fun u => ?_, h.network⟩
    cases u with
    | handler x => rfl
    | receiver x => rfl
    | sender x =>
      simp only [Server.buffer, Function.update_apply]
      split
      · rename_i hx
        rw [hx, hw]; rfl
      · rfl

theorem Mutexes.reach {G : Server → Action → Prop} (h : (relay C).ReachWhen G s) : Mutexes s :=
  h.induct (fun _ => Mutexes.starts) fun _ _ _ hr hi _ hs =>
    hi.step (Shape.reach hr) (Known.reach hr) (Server.step_moves hs)

/-! ## Reference counts -/

/-- The references to `d`: of its handler, of its sender, and those that the receivers
account for. -/
def Server.references (s : Server) (d : ℕ) : ℕ :=
  s.refs d (.handler d) + s.refs d (.sender d) + ∑ x ∈ Finset.range s.created, s.refs d (.receiver x)

/-- **`memory_pointers` counts the references.** -/
def Counted (s : Server) : Prop := ∀ d, (s.device d).memoryPointers = s.references d

theorem Counted.starts (h : s.Starts) : Counted s := by
  intro d
  simp [(h.device d).2.1, Server.references, Server.refs, h.created, h.handler, h.sender,
    HandlerPc.holds, SenderPc.holds]

/-- A thread of an existing device changes the references by what its statement does. -/
theorem ThreadStep.references (h : ThreadStep s t σ s') (hc : ∀ x, t = .receiver x → x < s.created) (d : ℕ) :
    s'.references d + σ.released d = s.references d + σ.acquired d := by
  have ht := h.refs d
  have hu := fun u hu => (h.others u hu).2.2 d
  unfold Server.references
  rw [h.created]
  cases t with
  | handler x =>
    have hsum := Finset.sum_congr rfl fun y (_ : y ∈ Finset.range s.created) => hu (.receiver y) (by simp)
    rw [hu (.sender d) (by simp), hsum]
    by_cases hx : x = d
    · subst hx; omega
    · -- a handler has references to its own device only
      rw [hu (.handler d) fun he => hx (by cases he; rfl)]
      simp only [Server.refs, if_neg hx] at ht
      omega
  | sender x =>
    have hsum := Finset.sum_congr rfl fun y (_ : y ∈ Finset.range s.created) => hu (.receiver y) (by simp)
    rw [hu (.handler d) (by simp), hsum]
    by_cases hx : x = d
    · subst hx; omega
    · rw [hu (.sender d) fun he => hx (by cases he; rfl)]
      simp only [Server.refs, if_neg hx] at ht
      omega
  | receiver x =>
    have hsum := sum_step (Finset.mem_range.2 (hc x rfl))
      (fun y _ hy => hu (.receiver y) fun he => hy (by cases he; rfl)) ht
    rw [hu (.handler d) (by simp), hu (.sender d) (by simp)]
    omega

theorem ThreadStep.counted (h : ThreadStep s t σ s') (hc : ∀ x, t = .receiver x → x < s.created)
    (hcount : Counted s) : Counted s' := by
  intro d
  have href := h.references hc d
  rw [h.device, onDevice_memoryPointers, hcount d]
  omega

/-- Nobody has a reference to a device that is not created. -/
theorem count_current (hk : Known s) {d : ℕ} (hd : (s.device d).connectionState = .intialization) (x : ℕ) :
    (s.receiver x).current.count d = 0 := by
  refine List.count_eq_zero.2 fun hmem => ?_
  have hm := hk.mentioned x d
  generalize s.receiver x = p at hmem hm
  cases p <;> simp only [ReceiverPc.current, List.not_mem_nil] at hmem
  case castCopy m todo current => exact hm (Or.inr hmem) hd
  case castNext m rest => exact hm hmem hd
  case castPush m r rest => exact hm (List.mem_cons.1 hmem) hd
  case castRelease m r rest => exact hm (List.mem_cons.1 hmem) hd
  case castSignal m r rest => exact hm (Or.inr hmem) hd
  case castUnlock m r rest => exact hm (Or.inr hmem) hd

/-- A device whose handler has not started has no references. -/
theorem refs_eq_zero (hsh : Shape s) (hk : Known s) {d : ℕ}
    (h : s.handler d = .absent ∨ s.handler d = .acquire) (t : Thread) : s.refs d t = 0 := by
  have hs : s.sender d = .absent := hsh.sender d (by rcases h with h | h <;> rw [h] <;> rfl)
  have hr : s.receiver d = .absent := hsh.receiver d (by rcases h with h | h <;> rw [h] <;> rfl)
  have hst : (s.device d).connectionState = .intialization := fits_absent (by rw [← hr]; exact hsh.fits d)
  cases t with
  | handler x =>
    simp only [Server.refs]
    split
    · rename_i hx
      subst hx
      rcases h with h | h <;> rw [h] <;> rfl
    · rfl
  | sender x =>
    simp only [Server.refs]
    split
    · rename_i hx
      subst hx
      rw [hs]; rfl
    · rfl
  | receiver x =>
    simp only [Server.refs, count_current hk hst]
    split
    · rename_i hx
      subst hx
      rw [hr, hst]; rfl
    · rfl

/-- A new device changes nobody's references. -/
theorem CreateMove.references {fd last : ℕ} {networkId : UInt32} {p : HandlerPc}
    (hm : CreateMove s fd (newDevice fd networkId last) p s') (hsh : Shape s) (d : ℕ) :
    s'.references d = s.references d := by
  obtain ⟨-, hr⟩ := hsh.absent (Nat.le_refl s.created)
  have hst : (s.device s.created).connectionState = .intialization :=
    fits_absent (by rw [← hr]; exact hsh.fits s.created)
  have hnew : (newDevice fd networkId last).connectionState = .intialization := rfl
  have hh : s'.refs d (.handler d) = s.refs d (.handler d) := by
    simp only [Server.refs, hm.handler, if_true]
    split
    · rename_i hd
      rw [hd, hsh.handler _ (Nat.le_refl _)]
      rcases hm.start with hp | hp <;> simp [hp, HandlerPc.holds]
    · rfl
  have hs : s'.refs d (.sender d) = s.refs d (.sender d) := by simp only [Server.refs, hm.sender]
  have hrec : ∀ x, s'.refs d (.receiver x) = s.refs d (.receiver x) := by
    intro x
    simp only [Server.refs, hm.receiver, hm.device]
    split
    · rename_i hx
      subst hx
      split
      · rename_i hx
        rw [hx, hnew, hst]
      · rfl
    · rfl
  -- the new receiver is absent
  have hlast : s.refs d (.receiver s.created) = 0 := by
    simp [Server.refs, hr, hst, ReceiverPc.ownRefs, ReceiverPc.holds, ReceiverPc.current]
  unfold Server.references
  rw [hm.created, Finset.sum_range_succ, hrec, hlast, hh, hs, Finset.sum_congr rfl fun x _ => hrec x, Nat.add_zero]

theorem Counted.step_create {fd last : ℕ} {networkId : UInt32} {p : HandlerPc} (h : Counted s) (hsh : Shape s)
    (hk : Known s) (hm : CreateMove s fd (newDevice fd networkId last) p s') : Counted s' := by
  intro d
  rw [hm.references hsh, hm.device, ← h d]
  split
  · rename_i hd
    subst hd
    -- nobody has a reference to it yet
    have hz := refs_eq_zero hsh hk (Or.inl (hsh.handler _ (Nat.le_refl s.created)))
    have hzero : s.references s.created = 0 := by simp [Server.references, hz]
    rw [h s.created, hzero]; rfl
  · rfl

theorem Counted.step (h : Counted s) (hsh : Shape s) (hk : Known s) (hm : s.Moves C a ev s') :
    Counted s' := by
  cases hm with
  | accept fd hfd => exact h
  | create fd launched networkId last hm => exact h.step_create hsh hk hm
  | handler d e hm => exact (ThreadStep.of_handler hsh hm).counted nofun h
  | sender d e hm => exact (ThreadStep.of_sender hm).counted nofun h
  | @receiver d e σ ev p s' hm =>
    refine (ThreadStep.of_receiver hsh hm).counted (fun x hx => ?_) h
    cases hx
    refine hsh.lt_created fun habs => ?_
    have hstep := hm.step
    rw [habs] at hstep
    cases hstep
  | wake d hw =>
    intro d'
    have href : Server.references { s with sender := Function.update s.sender d .woken } d' =
        s.references d' := by
      unfold Server.references
      simp only [Server.refs, Function.update_apply, if_true]
      split
      · rename_i hd
        rw [hd, hw]; rfl
      · rfl
    rw [href]
    exact h d'

theorem Counted.reach {G : Server → Action → Prop} (h : (relay C).ReachWhen G s) : Counted s :=
  h.induct (fun _ => Counted.starts) fun _ _ _ hr hi _ hs =>
    hi.step (Shape.reach hr) (Known.reach hr) (Server.step_moves hs)

/-! ## The registry -/

/-- A device in the state `CONNECTION_WORKING` is in the registry from the `insert` of its
receiver to its `erase`. -/
def ReceiverPc.listed : ReceiverPc → Bool
  | .addAcquire _ | .addLock _ | .addInsert _ | .removeUnlock | .removeRelease | .setEnded => false
  | _ => true

/-- Where a device in the registry stands. -/
structure ListedAt (s : Server) (n : UInt32) (d : ℕ) : Prop where
  networkId : (s.device d).networkId = n
  working : (s.device d).connectionState = .working
  listed : (s.receiver d).listed = true

/-- **The devices in the registry are working**, and not removed by their receivers. -/
def Listed (s : Server) : Prop := ∀ n d, d ∈ s.networkDevices n → ListedAt s n d

theorem Listed.starts (h : s.Starts) : Listed s := by
  intro n d hd
  rw [h.networkDevices] at hd
  simp at hd

/-- Identifiers change when a receiver sets its connection to working, and only then. -/
theorem onDevice_networkId {d : ℕ} {x : DeviceData} (hσ : ∀ r n, σ = .setWorking r n → r ≠ d) :
    (σ.onDevice t d x).networkId = x.networkId := by
  cases σ <;> simp only [Stmt.onDevice]
  case setWorking r n => rw [if_neg (hσ r n rfl)]
  all_goals (try split) <;> rfl

theorem HandlerPc.Step.noWorking {d : ℕ} {st : ConnectionState} {p p' : HandlerPc}
    (h : p.Step C d st σ ev p') (r : ℕ) (n : UInt32) : σ ≠ .setWorking r n := by
  cases h <;> simp

theorem SenderPc.Step.noWorking {d : ℕ} {data : DeviceData} {p p' : SenderPc}
    (h : p.Step d data σ ev p') (r : ℕ) (n : UInt32) : σ ≠ .setWorking r n := by
  cases h <;> simp

theorem ReceiverPc.Step.onlyOwn {d : ℕ} {data : DeviceData} {network : UInt32 → Finset ℕ} {p p' : ReceiverPc}
    (h : p.Step C d data network σ ev p') :
    (∀ r n, σ = .setWorking r n → r = d ∧ ∃ m, p = .setWorking m) ∧ (∀ r, σ = .erase r → r = d) ∧
      (∀ r, σ = .setEnded r → r = d ∧ p = .setEnded) := by
  cases h <;> simp

/-- A receiver that is listed stays listed until it erases itself. -/
theorem ReceiverPc.Step.listed {d : ℕ} {data : DeviceData} {network : UInt32 → Finset ℕ} {p p' : ReceiverPc}
    (h : p.Step C d data network σ ev p') (hst : data.connectionState = .working)
    (hp : p.fits data.connectionState = true) :
    (p.listed = true → p'.listed = true ∨ σ = .erase d) ∧ (σ = .insert d → p'.listed = true) := by
  cases h <;> simp_all [ReceiverPc.listed, ReceiverPc.fits]

/-- Erasing a device leaves it in no set. -/
theorem notMem_eraseDevice (s : Server) (d : ℕ) (set : Finset ℕ) : d ∉ s.eraseDevice d set := by
  unfold Server.eraseDevice
  simp

theorem Listed.step_receiver {d : ℕ} {p : ReceiverPc} (h : Listed s) (hsh : Shape s)
    (hm : ReceiverMove C s d σ ev p s') : Listed s' := by
  intro n x hx
  rw [hm.networkDevices] at hx
  obtain ⟨hwork, herase, hended⟩ := hm.step.onlyOwn
  rcases mem_onNetwork hx with hold | ⟨hσ, hn⟩
  · obtain ⟨h1, h2, h3⟩ := h n x hold
    have hfit := hsh.fits x
    by_cases hxd : x = d
    · subst hxd
      -- the step of the device's own receiver: it is not where the state changes
      have hno : ∀ r k, σ = .setWorking r k → r ≠ x := by
        intro r k hk
        obtain ⟨-, m, hp⟩ := hwork r k hk
        rw [hp, h2] at hfit
        cases hfit
      have hne : ∀ r, σ ≠ .setEnded r := by
        intro r hr
        rw [(hended r hr).2] at h3
        cases h3
      refine ⟨by rw [hm.device, onDevice_networkId hno]; exact h1, ?_, ?_⟩
      · rw [hm.connectionState, h2]
        cases σ <;> simp only [Stmt.onState] <;> (try split) <;> first | rfl | exact absurd rfl (hne _)
      · rw [hm.receiver, if_pos rfl]
        rcases (hm.step.listed h2 hfit).1 h3 with hl | hl
        · exact hl
        · rw [hl] at hx
          simp only [Stmt.onNetwork, h1, Function.update_self] at hx
          exact absurd hx (notMem_eraseDevice s x _)
    · have hno : ∀ r k, σ = .setWorking r k → r ≠ x := fun r k hk he => hxd (he ▸ (hwork r k hk).1)
      exact ⟨by rw [hm.device, onDevice_networkId hno]; exact h1,
        by rw [hm.connectionState, hm.step.onState hxd]; exact h2, by rw [hm.receiver, if_neg hxd]; exact h3⟩
  · obtain ⟨rfl, hw, -⟩ := hm.step.inserts (hsh.fits d) hσ
    refine ⟨?_, ?_, ?_⟩
    · rw [hm.device, onDevice_networkId (by rw [hσ]; simp), hn]
    · rw [hm.connectionState, hσ]; exact hw
    · rw [hm.receiver, if_pos rfl]
      exact (hm.step.listed hw (hsh.fits x)).2 hσ

theorem Listed.step (h : Listed s) (hsh : Shape s) (hm : s.Moves C a ev s') : Listed s' := by
  cases hm with
  | accept fd hfd => exact fun n x hx => ⟨(h n x hx).1, (h n x hx).2, (h n x hx).3⟩
  | create fd launched networkId last hm =>
    intro n x hx
    rw [hm.networkDevices] at hx
    obtain ⟨h1, h2, h3⟩ := h n x hx
    have hne : x ≠ s.created := by
      rintro rfl
      have hf := hsh.fits s.created
      rw [(hsh.absent (Nat.le_refl _)).2, h2] at hf
      cases hf
    exact ⟨by rw [hm.device, if_neg hne]; exact h1, by rw [hm.device, if_neg hne]; exact h2,
      by rw [hm.receiver]; exact h3⟩
  | @handler d e σ ev p s' hm =>
    intro n x hx
    rw [hm.networkDevices, hm.step.onNetwork] at hx
    obtain ⟨h1, h2, h3⟩ := h n x hx
    refine ⟨by rw [hm.device, onDevice_networkId fun r k hk => absurd hk (hm.step.noWorking r k)]; exact h1,
      by rw [hm.connectionState, hm.step.creates.2.2]; exact h2, ?_⟩
    rw [hm.receiver_same hsh (hsh.present h2)]
    exact h3
  | sender d e hm =>
    intro n x hx
    rw [hm.networkDevices, hm.step.onNetwork] at hx
    obtain ⟨h1, h2, h3⟩ := h n x hx
    exact ⟨by rw [hm.device, onDevice_networkId fun r k hk => absurd hk (hm.step.noWorking r k)]; exact h1,
      by rw [hm.connectionState, hm.step.onState]; exact h2, by rw [hm.receiver]; exact h3⟩
  | receiver d e hm => exact h.step_receiver hsh hm
  | wake d hw => exact fun n x hx => ⟨(h n x hx).1, (h n x hx).2, (h n x hx).3⟩

theorem Listed.reach {G : Server → Action → Prop} (h : (relay C).ReachWhen G s) : Listed s :=
  h.induct (fun _ => Listed.starts) fun _ _ _ hr hi _ hs => hi.step (Shape.reach hr) (Server.step_moves hs)

/-- A broadcast that copies the registry copies what is in it. -/
def Copying (s : Server) : Prop := ∀ x m todo current, s.receiver x = .castCopy m todo current →
  todo ⊆ s.networkDevices (ntohl m.bytes.networkId)

theorem Copying.starts (h : s.Starts) : Copying s := by
  intro x m todo current hx
  rw [h.receiver] at hx
  cases hx

theorem ReceiverPc.Step.copying {d : ℕ} {data : DeviceData} {network : UInt32 → Finset ℕ} {p p' : ReceiverPc}
    (h : p.Step C d data network σ ev p') {m : NetworkMessage} {todo : Finset ℕ} {current : List ℕ}
    (hp : p' = .castCopy m todo current) :
    (∀ r, σ ≠ .insert r ∧ σ ≠ .erase r) ∧ ((∃ todo' current', p = .castCopy m todo' current' ∧ todo ⊆ todo') ∨
      todo = network (ntohl m.bytes.networkId)) := by
  cases h <;> cases hp
  case castLock => exact ⟨by simp, Or.inr rfl⟩
  case castPick todo' current' r hr =>
    exact ⟨by simp, Or.inl ⟨todo', current', rfl, Finset.erase_subset r todo'⟩⟩

theorem onNetwork_eq (s : Server) (hσ : ∀ r, σ ≠ .insert r ∧ σ ≠ .erase r) : σ.onNetwork s = s.networkDevices := by
  cases σ <;> simp only [Stmt.onNetwork]
  case insert r => exact absurd rfl (hσ r).1
  case erase r => exact absurd rfl (hσ r).2

theorem Copying.step (h : Copying s) (hsh : Shape s) (hmx : Mutexes s) (hm : s.Moves C a ev s') :
    Copying s' := by
  cases hm with
  | accept fd hfd => exact h
  | create fd launched networkId last hm =>
    intro x m todo current hx
    rw [hm.receiver] at hx
    rw [hm.networkDevices]
    exact h x m todo current hx
  | @handler d e σ ev p s' hm =>
    intro x m todo current hx
    rw [hm.networkDevices, hm.step.onNetwork]
    rcases hm.receiver_or hsh x with he | ⟨he, -⟩ <;> rw [he] at hx
    · exact h x m todo current hx
    · cases hx
  | sender d e hm =>
    intro x m todo current hx
    rw [hm.receiver] at hx
    rw [hm.networkDevices, hm.step.onNetwork]
    exact h x m todo current hx
  | @receiver d e σ ev p s' hm =>
    intro x m todo current hx
    rw [hm.receiver] at hx
    rw [hm.networkDevices]
    split at hx
    · obtain ⟨hσ, hcase⟩ := hm.step.copying hx
      rw [onNetwork_eq s hσ]
      rcases hcase with ⟨todo', current', hp, hsub⟩ | rfl
      · exact hsub.trans (h d m todo' current' hp)
      · exact Finset.Subset.refl _
    · rename_i hxd
      -- the copying receiver holds the mutex, so nobody else changes the registry
      have hsame : σ.onNetwork s = s.networkDevices := by
        refine onNetwork_eq s fun r => ?_
        have hin : s.inNetwork (.receiver x) = true := by simp [Server.inNetwork, hx, ReceiverPc.inNetwork]
        have hnet := (ThreadStep.of_receiver hsh hm).network
        have huniq : s.inNetwork (.receiver d) = true → False := by
          intro hd
          have := hmx.network.unique (k := ()) (t := .receiver x) (u := .receiver d) (by rw [hin]; rfl)
            (by rw [hd]; rfl)
          cases this
          exact hxd rfl
        constructor <;> rintro rfl <;> exact huniq hnet.1
      rw [hsame]
      exact h x m todo current hx
  | wake d hw => exact h

theorem Copying.reach {G : Server → Action → Prop} (h : (relay C).ReachWhen G s) : Copying s :=
  h.induct (fun _ => Copying.starts) fun _ _ _ hr hi _ hs =>
    hi.step (Shape.reach hr) (Mutexes.reach hr) (Server.step_moves hs)

end ServerRoom.Relay
