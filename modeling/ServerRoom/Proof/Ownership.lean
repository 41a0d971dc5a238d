import ServerRoom.Lib.Sharing
import ServerRoom.Proof.Threads

/-!
# Locks and references

Where a thread stands says which locks and references it has: `Server.buffer` the device
whose `new_message_mutex` it holds, `Server.inNetwork` whether it holds
`network_devices_mutex`, `Server.refs` its references to a device. `ThreadStep` is what a
step does to these and to the shared data. From it, in every reachable state:

* `Shape`: a thread that is not created yet does not run, and where a receiver stands
  fits its connection state.
* `Known`: the devices that the registry and the broadcasts mention have left
  `CONNECTION_INTIALIZATION`.
-/

namespace ServerRoom.Relay

variable {C : Crypto} {s s' : Server} {a : Action} {ev : Option Event}

/-! ## Where the threads stand -/

/-- The handler has its reference. -/
def HandlerPc.holds : HandlerPc → Bool
  | .absent | .acquire | .done => false
  | _ => true

def HandlerPc.inBuffer : HandlerPc → Bool
  | .push _ | .signal | .unlock => true
  | _ => false

def HandlerPc.beforeSender : HandlerPc → Bool
  | .absent | .acquire | .createSender => true
  | _ => false

def HandlerPc.beforeReceiver : HandlerPc → Bool
  | .absent | .acquire | .createSender | .createReceiver => true
  | _ => false

/-- The handler has left its loop. -/
def HandlerPc.left : HandlerPc → Bool
  | .release | .done => true
  | _ => false

def SenderPc.holds : SenderPc → Bool
  | .absent | .acquire | .done => false
  | _ => true

def SenderPc.inBuffer : SenderPc → Bool
  | .wait | .drain _ | .unlock => true
  | _ => false

def ReceiverPc.holds : ReceiverPc → Bool
  | .absent | .acquire | .done => false
  | _ => true

def ReceiverPc.inNetwork : ReceiverPc → Bool
  | .addInsert _ | .addUnlock _ | .castCopy _ _ _ | .removeErase | .removeUnlock => true
  | _ => false

/-- Whose `new_message_mutex` the receiver of `d` holds. -/
def ReceiverPc.buffer (d : ℕ) : ReceiverPc → Option ℕ
  | .castPush _ r _ | .castRelease _ r _ | .castSignal _ r _ | .castUnlock _ r _ => some r
  | .finalSignal | .finalUnlock => some d
  | _ => none

/-- The recipients that the running broadcast has a reference to. -/
def ReceiverPc.current : ReceiverPc → List ℕ
  | .castCopy _ _ current => current
  | .castNext _ rest | .castSignal _ _ rest | .castUnlock _ _ rest => rest
  | .castPush _ r rest | .castRelease _ r rest => r :: rest
  | _ => []

/-- In the state `CONNECTION_WORKING` the registry has its reference from the `acquire` of
`add_device_to_network` to the `release` of `remove_device_from_network`. -/
def ReceiverPc.registryHolds : ReceiverPc → Bool
  | .addAcquire _ | .setEnded => false
  | _ => true

/-- Where a receiver can stand in each connection state. -/
def ReceiverPc.fits : ConnectionState → ReceiverPc → Bool
  | .intialization, .absent | .intialization, .acquire | .intialization, .start
  | .intialization, .test _ | .intialization, .read | .intialization, .check _
  | .intialization, .compare _ | .intialization, .stamp _ | .intialization, .setWorking _ | .intialization, .last
  | .intialization, .leave | .intialization, .setEnded => true
  | .intialization, _ => false
  | .working, .absent | .working, .acquire | .working, .start | .working, .setWorking _ => false
  | .working, .finalLock | .working, .finalSignal | .working, .finalUnlock | .working, .release
  | .working, .done => false
  | .working, _ => true
  | .ended, .finalLock | .ended, .finalSignal | .ended, .finalUnlock | .ended, .release
  | .ended, .done => true
  | .ended, _ => false

/-- The device whose `new_message_mutex` a thread holds. -/
def Server.buffer (s : Server) : Thread → Option ℕ
  | .handler d => if (s.handler d).inBuffer then some d else none
  | .sender d => if (s.sender d).inBuffer then some d else none
  | .receiver d => (s.receiver d).buffer d

/-- The thread holds `network_devices_mutex`. -/
def Server.inNetwork (s : Server) : Thread → Bool
  | .receiver d => (s.receiver d).inNetwork
  | _ => false

/-- How many references to its own device the receiver of `d` accounts for: its own, and
the registry's. -/
def ReceiverPc.ownRefs (st : ConnectionState) (p : ReceiverPc) : ℕ :=
  p.holds.toNat + if st = .working ∧ p.registryHolds then 1 else 0

/-- The references to `d` that a thread accounts for. -/
def Server.refs (s : Server) (d : ℕ) : Thread → ℕ
  | .handler x => if x = d then (s.handler x).holds.toNat else 0
  | .sender x => if x = d then (s.sender x).holds.toNat else 0
  | .receiver x =>
    (if x = d then (s.receiver x).ownRefs (s.device x).connectionState else 0) + (s.receiver x).current.count d

/-! ## The fields of a record after a statement -/

def Stmt.acquired (d : ℕ) : Stmt → ℕ
  | .acquire r => if r = d then 1 else 0
  | _ => 0

def Stmt.released (d : ℕ) : Stmt → ℕ
  | .release r => if r = d then 1 else 0
  | _ => 0

def Stmt.onState (d : ℕ) (st : ConnectionState) : Stmt → ConnectionState
  | .setWorking r _ => if r = d then .working else st
  | .setEnded r => if r = d then .ended else st
  | _ => st

def Stmt.onMutex (t : Thread) (d : ℕ) (owner : Option Thread) : Stmt → Option Thread
  | .lockBuffer r => if r = d then some t else owner
  | .unlockBuffer r | .wait r => if r = d then none else owner
  | _ => owner

def Stmt.onBuffer (d : ℕ) (buffer : List NetworkMessage) : Stmt → List NetworkMessage
  | .pushBack r m => if r = d then buffer ++ [m] else buffer
  | .clear r => if r = d then [] else buffer
  | _ => buffer

section OnDevice

variable (σ : Stmt) (t : Thread) (d : ℕ) (x : DeviceData)

theorem onDevice_sockfd : (σ.onDevice t d x).sockfd = x.sockfd := by
  cases σ <;> simp only [Stmt.onDevice] <;> split <;> rfl

theorem onDevice_connectionState :
    (σ.onDevice t d x).connectionState = σ.onState d x.connectionState := by
  cases σ <;> simp only [Stmt.onDevice, Stmt.onState] <;> split <;> rfl

theorem onDevice_memoryPointers :
    (σ.onDevice t d x).memoryPointers = x.memoryPointers + σ.acquired d - σ.released d := by
  cases σ <;> simp only [Stmt.onDevice, Stmt.acquired, Stmt.released] <;> (try split) <;> simp

theorem onDevice_newMessageMutex :
    (σ.onDevice t d x).newMessageMutex = σ.onMutex t d x.newMessageMutex := by
  cases σ <;> simp only [Stmt.onDevice, Stmt.onMutex] <;> split <;> rfl

theorem onDevice_sendingBuffer : (σ.onDevice t d x).sendingBuffer = σ.onBuffer d x.sendingBuffer := by
  cases σ <;> simp only [Stmt.onDevice, Stmt.onBuffer] <;> split <;> rfl

theorem onDevice_deletes : (σ.onDevice t d x).deletes =
    if σ.released d = 1 ∧ x.memoryPointers - 1 = 0 then x.deletes + 1 else x.deletes := by
  cases σ <;> simp only [Stmt.onDevice, Stmt.released] <;> (try split) <;> simp_all

end OnDevice

/-! ## What a step does to locks and references -/

/-- How a statement changes which `new_message_mutex` its thread holds. The buffer and the
condition are only touched by the holder. -/
def Stmt.Buffer (b b' : Option ℕ) : Stmt → Prop
  | .lockBuffer r => b = none ∧ b' = some r
  | .unlockBuffer r | .wait r => b = some r ∧ b' = none
  | .pushBack r _ | .signal r | .clear r | .sendMessage r _ => b = some r ∧ b' = some r
  | _ => b' = b

/-- The same for `network_devices_mutex` and the registry. -/
def Stmt.Network (n n' : Bool) : Stmt → Prop
  | .lockNetwork => n = false ∧ n' = true
  | .unlockNetwork => n = true ∧ n' = false
  | .insert _ | .erase _ => n = true ∧ n' = true
  | _ => n' = n

/-- A step of thread `t` that executes `σ`. -/
structure ThreadStep (s : Server) (t : Thread) (σ : Stmt) (s' : Server) : Prop where
  ready : σ.Ready s
  device : ∀ d, s'.device d = σ.onDevice t d (s.device d)
  networkMutex : s'.networkMutex = σ.onNetworkMutex t s.networkMutex
  created : s'.created = s.created
  buffer : σ.Buffer (s.buffer t) (s'.buffer t)
  network : σ.Network (s.inNetwork t) (s'.inNetwork t)
  refs : ∀ d, s'.refs d t + σ.released d = s.refs d t + σ.acquired d
  others : ∀ u, u ≠ t → s'.buffer u = s.buffer u ∧ s'.inNetwork u = s.inNetwork u ∧
    ∀ d, s'.refs d u = s.refs d u

theorem acquired_of_released {σ : Stmt} {d : ℕ} (h : σ.released d = 1) : σ.acquired d = 0 := by
  cases σ <;> simp_all [Stmt.released, Stmt.acquired]

/-- A thread that releases a device has a reference to it. -/
theorem ThreadStep.refs_pos {t : Thread} {σ : Stmt} (h : ThreadStep s t σ s') {d : ℕ}
    (hrel : σ.released d = 1) : 0 < s.refs d t := by
  have hr := h.refs d
  have hacq := acquired_of_released hrel
  omega

theorem HandlerPc.Step.locks {d : ℕ} {st : ConnectionState} {p p' : HandlerPc} {σ : Stmt}
    (h : p.Step C d st σ ev p') :
    σ.Buffer (if p.inBuffer then some d else none) (if p'.inBuffer then some d else none) ∧
      σ.Network false false ∧
      ∀ x, (if d = x then p'.holds.toNat else 0) + σ.released x =
        (if d = x then p.holds.toNat else 0) + σ.acquired x := by
  cases h <;> refine ⟨?_, ?_, fun x => ?_⟩ <;>
    simp [Stmt.Buffer, Stmt.Network, Stmt.acquired, Stmt.released, HandlerPc.inBuffer, HandlerPc.holds]

theorem SenderPc.Step.locks {d : ℕ} {data : DeviceData} {p p' : SenderPc} {σ : Stmt}
    (h : p.Step d data σ ev p') :
    σ.Buffer (if p.inBuffer then some d else none) (if p'.inBuffer then some d else none) ∧
      σ.Network false false ∧
      ∀ x, (if d = x then p'.holds.toNat else 0) + σ.released x =
        (if d = x then p.holds.toNat else 0) + σ.acquired x := by
  cases h <;> refine ⟨?_, ?_, fun x => ?_⟩ <;>
    simp [Stmt.Buffer, Stmt.Network, Stmt.acquired, Stmt.released, SenderPc.inBuffer, SenderPc.holds]

theorem ReceiverPc.Step.buffer {d : ℕ} {data : DeviceData} {network : UInt32 → Finset ℕ} {p p' : ReceiverPc}
    {σ : Stmt} (h : p.Step C d data network σ ev p') :
    σ.Buffer (p.buffer d) (p'.buffer d) ∧ σ.Network p.inNetwork p'.inNetwork := by
  cases h <;> simp [Stmt.Buffer, Stmt.Network, ReceiverPc.buffer, ReceiverPc.inNetwork]

/-- Where a receiver goes fits the state that it leaves. -/
theorem ReceiverPc.Step.fits {d : ℕ} {data : DeviceData} {network : UInt32 → Finset ℕ} {p p' : ReceiverPc}
    {σ : Stmt} (h : p.Step C d data network σ ev p') (hp : p.fits data.connectionState) :
    p'.fits (σ.onState d data.connectionState) := by
  generalize hst : data.connectionState = st at hp
  cases st <;> cases h <;> simp_all [ReceiverPc.fits, Stmt.onState]

/-- The references that a receiver accounts for. -/
theorem ReceiverPc.Step.refs {d : ℕ} {data : DeviceData} {network : UInt32 → Finset ℕ} {p p' : ReceiverPc}
    {σ : Stmt} (h : p.Step C d data network σ ev p') (hp : p.fits data.connectionState) (x : ℕ) :
    (if d = x then p'.ownRefs (σ.onState d data.connectionState) else 0) + p'.current.count x + σ.released x =
      (if d = x then p.ownRefs data.connectionState else 0) + p.current.count x + σ.acquired x := by
  generalize hst : data.connectionState = st at hp
  cases st <;> cases h <;>
    simp_all [ReceiverPc.fits, Stmt.onState, Stmt.acquired, Stmt.released, ReceiverPc.ownRefs,
      ReceiverPc.holds, ReceiverPc.registryHolds, ReceiverPc.current, List.count_cons] <;>
    (try split) <;> omega

/-! ## The shape of a reachable state -/

/-- Threads run only after they were created; the receiver fits its connection state; the
handler leaves its loop only when the connection has ended. -/
structure Shape (s : Server) : Prop where
  handler : ∀ d, s.created ≤ d → s.handler d = .absent
  sender : ∀ d, (s.handler d).beforeSender = true → s.sender d = .absent
  receiver : ∀ d, (s.handler d).beforeReceiver = true → s.receiver d = .absent
  fits : ∀ d, (s.receiver d).fits (s.device d).connectionState = true
  left : ∀ d, (s.handler d).left = true → (s.device d).connectionState = .ended

theorem Shape.starts (h : s.Starts) : Shape s where
  handler d _ := by rw [h.handler]
  sender d _ := by rw [h.sender]
  receiver d _ := by rw [h.receiver]
  fits d := by rw [h.receiver, (h.device d).1]; rfl
  left d hd := by rw [h.handler] at hd; simp [HandlerPc.left] at hd

/-- A device that is not created yet has no threads. -/
theorem Shape.absent (h : Shape s) {d : ℕ} (hd : s.created ≤ d) :
    s.sender d = .absent ∧ s.receiver d = .absent :=
  ⟨h.sender d (by rw [h.handler d hd]; rfl), h.receiver d (by rw [h.handler d hd]; rfl)⟩

/-- A running receiver belongs to a device that is created. -/
theorem Shape.lt_created (h : Shape s) {d : ℕ} (hd : s.receiver d ≠ .absent) : d < s.created :=
  Nat.lt_of_not_le fun hle => hd (h.absent hle).2

/-- A sender that is not there is not woken. -/
theorem onSender_absent {σ : Stmt} {d : ℕ} (hσ : ∀ r, σ = .createSender r → r ≠ d) :
    σ.onSender d .absent = .absent := by
  cases σ <;> simp only [Stmt.onSender]
  case signal r => simp
  case createSender r => exact if_neg (hσ r rfl)

theorem onReceiver_of_ne {σ : Stmt} {d : ℕ} {q : ReceiverPc} (hσ : ∀ r, σ = .createReceiver r → r ≠ d) :
    σ.onReceiver d q = q := by
  cases σ <;> simp only [Stmt.onReceiver]
  case createReceiver r => exact if_neg (hσ r rfl)

/-- Only a handler creates threads, and only its own. -/
theorem HandlerPc.Step.creates {d : ℕ} {st : ConnectionState} {p p' : HandlerPc} {σ : Stmt}
    (h : p.Step C d st σ ev p') :
    (∀ r, σ = .createSender r → r = d ∧ p = .createSender) ∧
      (∀ r, σ = .createReceiver r → r = d ∧ p = .createReceiver) ∧ ∀ x st', σ.onState x st' = st' := by
  cases h <;> simp [Stmt.onState]

theorem SenderPc.Step.onState {d : ℕ} {data : DeviceData} {p p' : SenderPc} {σ : Stmt}
    (h : p.Step d data σ ev p') (x : ℕ) (st : ConnectionState) : σ.onState x st = st := by
  cases h <;> rfl

theorem ReceiverPc.Step.onState {d : ℕ} {data : DeviceData} {network : UInt32 → Finset ℕ} {p p' : ReceiverPc}
    {σ : Stmt} (h : p.Step C d data network σ ev p') {x : ℕ} (hx : x ≠ d) (st : ConnectionState) :
    σ.onState x st = st := by
  cases h <;> simp [Stmt.onState] <;> exact fun he => absurd he.symm hx

theorem ReceiverPc.Step.creates {d : ℕ} {data : DeviceData} {network : UInt32 → Finset ℕ} {p p' : ReceiverPc}
    {σ : Stmt} (h : p.Step C d data network σ ev p') (r : ℕ) : σ ≠ .createSender r := by
  cases h <;> simp

/-- A handler that has not created a thread had not created it before. -/
theorem HandlerPc.Step.shape {d : ℕ} {st : ConnectionState} {p p' : HandlerPc} {σ : Stmt}
    (h : p.Step C d st σ ev p') :
    (p'.beforeSender = true → p.beforeSender = true ∧ ∀ r, σ ≠ .createSender r) ∧
      (p'.beforeReceiver = true → p.beforeReceiver = true ∧ ∀ r, σ ≠ .createReceiver r) ∧
      (p'.left = true → p.left = true ∨ st = .ended) := by
  cases h <;> simp_all [HandlerPc.beforeSender, HandlerPc.beforeReceiver, HandlerPc.left]

/-- A connection that has ended stays ended. -/
theorem ReceiverPc.Step.ended {d : ℕ} {data : DeviceData} {network : UInt32 → Finset ℕ} {p p' : ReceiverPc}
    {σ : Stmt} (h : p.Step C d data network σ ev p') (hp : p.fits .ended = true) (x : ℕ) :
    σ.onState x .ended = .ended := by
  cases h <;> simp_all [ReceiverPc.fits, Stmt.onState]

/-- The connection states after a step of a thread. -/
theorem Server.Effect.connectionState {t : Thread} {σ : Stmt} (h : s.Effect t σ s') (x : ℕ) :
    (s'.device x).connectionState = σ.onState x (s.device x).connectionState := by
  rw [h.device, onDevice_connectionState]

/-- Initially the receiver of a device is absent or has not verified a message. -/
theorem fits_absent {st : ConnectionState} (h : ReceiverPc.absent.fits st = true) : st = .intialization := by
  cases st <;> simp_all [ReceiverPc.fits]

theorem Shape.step_create {fd : ℕ} {data : DeviceData} {p : HandlerPc} (h : Shape s)
    (hm : CreateMove s fd data p s') (hd : data.connectionState = .intialization) : Shape s' := by
  obtain ⟨hs, hr⟩ := h.absent (Nat.le_refl s.created)
  refine ⟨fun d hle => ?_, fun d => ?_, fun d => ?_, fun d => ?_, fun d => ?_⟩
  · rw [hm.created] at hle
    rw [hm.handler, if_neg (by omega)]; exact h.handler d (by omega)
  · rw [hm.handler, hm.sender]
    split
    · rename_i he; intro _; rw [he]; exact hs
    · exact h.sender d
  · rw [hm.handler, hm.receiver]
    split
    · rename_i he; intro _; rw [he]; exact hr
    · exact h.receiver d
  · rw [hm.device, hm.receiver]
    split
    · rename_i he; rw [he, hr, hd]; rfl
    · exact h.fits d
  · rw [hm.handler, hm.device]
    split
    · rcases hm.start with rfl | rfl <;> simp [HandlerPc.left]
    · exact h.left d

theorem Shape.step_handler {d : ℕ} {σ : Stmt} {p : HandlerPc} (h : Shape s)
    (hm : HandlerMove C s d σ ev p s') : Shape s' := by
  obtain ⟨hbs, hbr, hleft⟩ := hm.step.shape
  obtain ⟨hcs, hcr, hst⟩ := hm.step.creates
  refine ⟨fun x hle => ?_, fun x hx => ?_, fun x hx => ?_, fun x => ?_, fun x hx => ?_⟩
  · rw [hm.created] at hle
    rw [hm.handler]
    split
    · -- a handler that is absent takes no step
      rename_i hxd
      have hstep := hm.step
      rw [← hxd, h.handler x hle] at hstep
      cases hstep
    · exact h.handler x hle
  · rw [hm.handler] at hx
    rw [hm.sender]
    split at hx
    · rename_i hxd
      subst hxd
      rw [h.sender x (hbs hx).1]
      exact onSender_absent fun r hr => absurd hr ((hbs hx).2 r)
    · rename_i hxd
      rw [h.sender x hx]
      exact onSender_absent fun r hr he => hxd (he ▸ (hcs r hr).1)
  · rw [hm.handler] at hx
    rw [hm.receiver]
    split at hx
    · rename_i hxd
      subst hxd
      rw [h.receiver x (hbr hx).1]
      exact onReceiver_of_ne fun r hr => absurd hr ((hbr hx).2 r)
    · rename_i hxd
      rw [h.receiver x hx]
      exact onReceiver_of_ne fun r hr he => hxd (he ▸ (hcr r hr).1)
  · rw [hm.connectionState, hst, hm.receiver]
    by_cases hc : σ = .createReceiver x
    · -- a new receiver starts in the first connection state
      obtain ⟨rfl, hp⟩ := hcr x hc
      have hfit := h.fits x
      rw [h.receiver x (by rw [hp]; rfl)] at hfit
      rw [hc, fits_absent hfit]
      simp only [Stmt.onReceiver, if_true]
      rfl
    · rw [onReceiver_of_ne fun r hr he => hc (hr.trans (by rw [he]))]
      exact h.fits x
  · rw [hm.handler] at hx
    rw [hm.connectionState, hst]
    split at hx
    · -- it leaves its loop when it sees that the connection has ended
      rename_i hxd
      subst hxd
      exact (hleft hx).elim (h.left x) id
    · exact h.left x hx

theorem Shape.step_sender {d : ℕ} {σ : Stmt} {p : SenderPc} (h : Shape s)
    (hm : SenderMove s d σ ev p s') : Shape s' := by
  refine ⟨fun x hle => ?_, fun x hx => ?_, fun x hx => ?_, fun x => ?_, fun x hx => ?_⟩
  · rw [hm.handler]; exact h.handler x (by rw [← hm.created]; exact hle)
  · rw [hm.handler] at hx
    rw [hm.sender]
    split
    · rename_i hxd
      have hstep := hm.step
      rw [← hxd, h.sender x hx] at hstep
      cases hstep
    · exact h.sender x hx
  · rw [hm.handler] at hx
    rw [hm.receiver]; exact h.receiver x hx
  · rw [hm.connectionState, hm.step.onState, hm.receiver]; exact h.fits x
  · rw [hm.handler] at hx
    rw [hm.connectionState, hm.step.onState]; exact h.left x hx

theorem Shape.step_receiver {d : ℕ} {σ : Stmt} {p : ReceiverPc} (h : Shape s)
    (hm : ReceiverMove C s d σ ev p s') : Shape s' := by
  refine ⟨fun x hle => ?_, fun x hx => ?_, fun x hx => ?_, fun x => ?_, fun x hx => ?_⟩
  · rw [hm.handler]; exact h.handler x (by rw [← hm.created]; exact hle)
  · rw [hm.handler] at hx
    rw [hm.sender, h.sender x hx]
    exact onSender_absent fun r hr => absurd hr (hm.step.creates r)
  · rw [hm.handler] at hx
    rw [hm.receiver]
    split
    · rename_i hxd
      have hstep := hm.step
      rw [← hxd, h.receiver x hx] at hstep
      cases hstep
    · exact h.receiver x hx
  · rw [hm.receiver, hm.connectionState]
    split
    · rename_i hxd
      subst hxd
      exact hm.step.fits (h.fits x)
    · rename_i hxd
      rw [hm.step.onState hxd]; exact h.fits x
  · rw [hm.handler] at hx
    have he := h.left x hx
    rw [hm.connectionState, he]
    by_cases hxd : x = d
    · subst hxd
      exact hm.step.ended (he ▸ h.fits x) x
    · exact hm.step.onState hxd _

/-- **Every step keeps the shape.** -/
theorem Shape.step (h : Shape s) (hm : s.Moves C a ev s') : Shape s' := by
  cases hm with
  | accept fd hfd => exact ⟨h.handler, h.sender, h.receiver, h.fits, h.left⟩
  | create fd launched networkId last hm => exact h.step_create hm rfl
  | handler d e hm => exact h.step_handler hm
  | sender d e hm => exact h.step_sender hm
  | receiver d e hm => exact h.step_receiver hm
  | wake d hw =>
    refine ⟨h.handler, fun x hx => ?_, h.receiver, h.fits, h.left⟩
    have hs := h.sender x hx
    show Function.update s.sender d .woken x = _
    rw [Function.update_apply]
    split
    · rename_i hxd
      rw [← hxd, hs] at hw
      cases hw
    · exact hs

theorem Shape.reach {G : Server → Action → Prop} (h : (relay C).ReachWhen G s) : Shape s :=
  h.induct (fun _ => Shape.starts) fun _ _ _ _ hi _ hs => hi.step (Server.step_moves hs)

/-- A working connection has its receiver. -/
theorem Shape.present (h : Shape s) {d : ℕ} (hd : (s.device d).connectionState = .working) :
    s.receiver d ≠ .absent := by
  intro habs
  have hf := h.fits d
  rw [habs, hd] at hf
  cases hf

/-- A handler creates threads that are not there yet. -/
theorem HandlerMove.creates_sender {d x : ℕ} {σ : Stmt} {p : HandlerPc} (hm : HandlerMove C s d σ ev p s')
    (h : Shape s) (hσ : σ = .createSender x) : s.sender x = .absent := by
  obtain ⟨rfl, hp⟩ := hm.step.creates.1 x hσ
  exact h.sender x (by rw [hp]; rfl)

theorem HandlerMove.creates_receiver {d x : ℕ} {σ : Stmt} {p : HandlerPc} (hm : HandlerMove C s d σ ev p s')
    (h : Shape s) (hσ : σ = .createReceiver x) : s.receiver x = .absent := by
  obtain ⟨rfl, hp⟩ := hm.step.creates.2.1 x hσ
  exact h.receiver x (by rw [hp]; rfl)

/-- **A handler moves no receiver**: at most it creates its own. -/
theorem HandlerMove.receiver_or {d : ℕ} {σ : Stmt} {p : HandlerPc} (hm : HandlerMove C s d σ ev p s')
    (h : Shape s) (x : ℕ) : s'.receiver x = s.receiver x ∨ s'.receiver x = .acquire ∧ s.receiver x = .absent := by
  rw [hm.receiver]
  by_cases hc : σ = .createReceiver x
  · exact Or.inr ⟨by rw [hc]; simp [Stmt.onReceiver], hm.creates_receiver h hc⟩
  · exact Or.inl (onReceiver_of_ne fun r hr he => hc (hr.trans (by rw [he])))

theorem HandlerMove.receiver_same {d : ℕ} {σ : Stmt} {p : HandlerPc} (hm : HandlerMove C s d σ ev p s')
    (h : Shape s) {x : ℕ} (hx : s.receiver x ≠ .absent) : s'.receiver x = s.receiver x :=
  (hm.receiver_or h x).resolve_right fun hc => hx hc.2

/-! ## Locks -/

/-- Waking a sender, or creating it, changes neither its locks nor its references. -/
theorem onSender_locks {σ : Stmt} {d : ℕ} {q : SenderPc} (hσ : σ = .createSender d → q = .absent) :
    (σ.onSender d q).inBuffer = q.inBuffer ∧ (σ.onSender d q).holds = q.holds := by
  cases σ <;> simp only [Stmt.onSender, and_self]
  case signal r =>
    split
    · rename_i hw
      rw [hw.2]; exact ⟨rfl, rfl⟩
    · exact ⟨rfl, rfl⟩
  case createSender r =>
    split
    · rename_i hr
      rw [hσ (by rw [hr])]; exact ⟨rfl, rfl⟩
    · exact ⟨rfl, rfl⟩

/-- Creating a receiver changes neither its locks nor its references. -/
theorem onReceiver_locks {σ : Stmt} {d : ℕ} {q : ReceiverPc} (hσ : σ = .createReceiver d → q = .absent) :
    (σ.onReceiver d q).buffer d = q.buffer d ∧ (σ.onReceiver d q).inNetwork = q.inNetwork ∧
      (σ.onReceiver d q).current = q.current ∧ ∀ st, (σ.onReceiver d q).ownRefs st = q.ownRefs st := by
  cases σ <;> simp only [Stmt.onReceiver, and_self, implies_true]
  case createReceiver r =>
    split
    · rename_i hr
      rw [hσ (by rw [hr])]
      exact ⟨rfl, rfl, rfl, fun _ => rfl⟩
    · exact ⟨rfl, rfl, rfl, fun _ => rfl⟩

/-- A step of a handler, as a `ThreadStep`. -/
theorem ThreadStep.of_handler {d : ℕ} {σ : Stmt} {p : HandlerPc} (h : Shape s)
    (hm : HandlerMove C s d σ ev p s') : ThreadStep s (.handler d) σ s' := by
  obtain ⟨hbuf, hnet, href⟩ := hm.step.locks
  obtain ⟨-, -, hst⟩ := hm.step.creates
  have hs := fun x => onSender_locks (d := x) (q := s.sender x) (hm.creates_sender h)
  have hr := fun x => onReceiver_locks (d := x) (q := s.receiver x) (hm.creates_receiver h)
  refine ⟨hm.ready, hm.device, hm.networkMutex, hm.created, ?_, hnet, fun x => ?_, fun u hu => ?_⟩
  · simpa [Server.buffer, hm.handler] using hbuf
  · simpa [Server.refs, hm.handler] using href x
  · cases u with
    | handler x =>
      have hx : x ≠ d := fun he => hu (by rw [he])
      simp [Server.buffer, Server.inNetwork, Server.refs, hm.handler, hx]
    | sender x =>
      simp [Server.buffer, Server.inNetwork, Server.refs, hm.sender, (hs x).1, (hs x).2]
    | receiver x =>
      obtain ⟨h1, h2, h3, h4⟩ := hr x
      simp [Server.buffer, Server.inNetwork, Server.refs, hm.receiver, hm.connectionState, hst, h1, h2, h3, h4]

theorem ThreadStep.of_sender {d : ℕ} {σ : Stmt} {p : SenderPc} (hm : SenderMove s d σ ev p s') :
    ThreadStep s (.sender d) σ s' := by
  obtain ⟨hbuf, hnet, href⟩ := hm.step.locks
  refine ⟨hm.ready, hm.device, hm.networkMutex, hm.created, ?_, hnet, fun x => ?_, fun u hu => ?_⟩
  · simpa [Server.buffer, hm.sender] using hbuf
  · simpa [Server.refs, hm.sender] using href x
  · cases u with
    | handler x => simp [Server.buffer, Server.inNetwork, Server.refs, hm.handler]
    | sender x =>
      have hx : x ≠ d := fun he => hu (by rw [he])
      simp [Server.buffer, Server.inNetwork, Server.refs, hm.sender, hx]
    | receiver x =>
      simp [Server.buffer, Server.inNetwork, Server.refs, hm.receiver, hm.connectionState, hm.step.onState]

theorem ThreadStep.of_receiver {d : ℕ} {σ : Stmt} {p : ReceiverPc} (h : Shape s)
    (hm : ReceiverMove C s d σ ev p s') : ThreadStep s (.receiver d) σ s' := by
  obtain ⟨hbuf, hnet⟩ := hm.step.buffer
  have hs := fun x => onSender_locks (d := x) (q := s.sender x) fun hσ => absurd hσ (hm.step.creates x)
  refine ⟨hm.ready, hm.device, hm.networkMutex, hm.created, ?_, ?_, fun x => ?_, fun u hu => ?_⟩
  · simpa [Server.buffer, hm.receiver] using hbuf
  · simpa [Server.inNetwork, hm.receiver] using hnet
  · simpa [Server.refs, hm.receiver, hm.connectionState] using hm.step.refs (h.fits d) x
  · cases u with
    | handler x => simp [Server.buffer, Server.inNetwork, Server.refs, hm.handler]
    | sender x =>
      simp [Server.buffer, Server.inNetwork, Server.refs, hm.sender, (hs x).1, (hs x).2]
    | receiver x =>
      have hx : x ≠ d := fun he => hu (by rw [he])
      simp [Server.buffer, Server.inNetwork, Server.refs, hm.receiver, hm.connectionState, hx,
        hm.step.onState hx]

/-! ## Devices that others know -/

/-- A receiver is about to access `r` in its broadcast. -/
def ReceiverPc.Mentions (r : ℕ) : ReceiverPc → Prop
  | .castCopy _ todo current => r ∈ todo ∨ r ∈ current
  | .castNext _ rest => r ∈ rest
  | .castPush _ x rest | .castRelease _ x rest | .castSignal _ x rest | .castUnlock _ x rest =>
    r = x ∨ r ∈ rest
  | _ => False

/-- Only devices that have joined a network are in the registry and in broadcasts. -/
structure Known (s : Server) : Prop where
  network : ∀ n d, d ∈ s.networkDevices n → (s.device d).connectionState ≠ .intialization
  mentioned : ∀ x r, (s.receiver x).Mentions r → (s.device r).connectionState ≠ .intialization

theorem Known.starts (h : s.Starts) : Known s where
  network n d hd := by rw [h.networkDevices] at hd; simp at hd
  mentioned x r hr := by rw [h.receiver] at hr; exact hr.elim

/-- A broadcast takes its recipients from the registry. -/
theorem ReceiverPc.Step.mentions {d : ℕ} {data : DeviceData} {network : UInt32 → Finset ℕ} {p p' : ReceiverPc}
    {σ : Stmt} (h : p.Step C d data network σ ev p') {r : ℕ} (hr : p'.Mentions r) :
    p.Mentions r ∨ ∃ n, r ∈ network n := by
  cases h <;> simp only [ReceiverPc.Mentions] at hr ⊢
  case castLock m => exact Or.inr ⟨_, by simpa using hr⟩
  case castPick m todo current x hx =>
    left
    rcases hr with hr | hr
    · exact Or.inl (Finset.mem_of_mem_erase hr)
    · rcases List.mem_append.1 hr with hr | hr
      · exact Or.inr hr
      · rw [List.mem_singleton.1 hr]; exact Or.inl hx
  case castCopied m current => exact Or.inl (Or.inr hr)
  case castNext m x rest => exact Or.inl (List.mem_cons.2 hr)
  case castUnlock m x rest => exact Or.inl (Or.inr hr)
  all_goals exact Or.inl hr

/-- The registry gets only the inserted device. -/
theorem mem_onNetwork {σ : Stmt} {n : UInt32} {d : ℕ} (h : d ∈ σ.onNetwork s n) :
    d ∈ s.networkDevices n ∨ σ = .insert d ∧ n = (s.device d).networkId := by
  cases σ <;> simp only [Stmt.onNetwork] at h
  case insert r =>
    rw [Function.update_apply] at h
    split at h
    · rename_i hn
      unfold Server.insertDevice at h
      split at h
      · exact Or.inl (hn ▸ h)
      · rcases Finset.mem_insert.1 h with rfl | h
        · exact Or.inr ⟨rfl, hn⟩
        · exact Or.inl (hn ▸ h)
    · exact Or.inl h
  case erase r =>
    rw [Function.update_apply] at h
    split at h
    · rename_i hn
      exact Or.inl (hn ▸ (Finset.mem_filter.1 h).1)
    · exact Or.inl h
  all_goals exact Or.inl h

theorem onState_ne {σ : Stmt} {d : ℕ} {st : ConnectionState} (h : st ≠ .intialization) :
    σ.onState d st ≠ .intialization := by
  cases σ <;> simp only [Stmt.onState] <;> (try split) <;> simp_all

/-- Only a receiver inserts, and only itself, after it set its connection to working. -/
theorem HandlerPc.Step.onNetwork {d : ℕ} {st : ConnectionState} {p p' : HandlerPc} {σ : Stmt}
    (h : p.Step C d st σ ev p') : σ.onNetwork s = s.networkDevices := by
  cases h <;> rfl

theorem SenderPc.Step.onNetwork {d : ℕ} {data : DeviceData} {p p' : SenderPc} {σ : Stmt}
    (h : p.Step d data σ ev p') : σ.onNetwork s = s.networkDevices := by
  cases h <;> rfl

theorem ReceiverPc.Step.inserts {d x : ℕ} {data : DeviceData} {network : UInt32 → Finset ℕ} {p p' : ReceiverPc}
    {σ : Stmt} (h : p.Step C d data network σ ev p') (hp : p.fits data.connectionState = true)
    (hσ : σ = .insert x) : x = d ∧ data.connectionState = .working ∧ ∃ m, p = .addInsert m := by
  subst hσ
  generalize hst : data.connectionState = st at hp
  cases h with
  | addInsert m => cases st <;> simp_all [ReceiverPc.fits]

theorem Known.step (h : Known s) (hsh : Shape s) (hm : s.Moves C a ev s') : Known s' := by
  cases hm with
  | accept fd hfd => exact ⟨h.network, h.mentioned⟩
  | create fd launched networkId last hm =>
    -- the new device is not known to anybody: its record was still in the first state
    have hnew : (s.device s.created).connectionState = .intialization := by
      have hf := hsh.fits s.created
      rw [(hsh.absent (Nat.le_refl _)).2] at hf
      exact fits_absent hf
    have hd : ∀ d, (s.device d).connectionState ≠ .intialization →
        (s'.device d).connectionState ≠ .intialization := by
      intro d hd
      rw [hm.device, if_neg fun he => hd (by rw [he]; exact hnew)]
      exact hd
    refine ⟨fun n d hn => hd d (h.network n d (by rw [← hm.networkDevices]; exact hn)), fun x r hr => ?_⟩
    rw [hm.receiver] at hr
    exact hd r (h.mentioned x r hr)
  | @handler d e σ ev p s' hm =>
    have hst := fun x => (hm.connectionState x).trans (hm.step.creates.2.2 x _)
    refine ⟨fun n x hx => ?_, fun x r hr => ?_⟩
    · rw [hm.networkDevices, hm.step.onNetwork] at hx
      rw [hst]; exact h.network n x hx
    · rw [hst]
      rcases hm.receiver_or hsh x with hx | ⟨hx, -⟩ <;> rw [hx] at hr
      · exact h.mentioned x r hr
      · exact hr.elim
  | sender d e hm =>
    have hst := fun x => (hm.connectionState x).trans (hm.step.onState x _)
    refine ⟨fun n x hx => ?_, fun x r hr => ?_⟩
    · rw [hm.networkDevices, hm.step.onNetwork] at hx
      rw [hst]; exact h.network n x hx
    · rw [hm.receiver] at hr
      rw [hst]; exact h.mentioned x r hr
  | receiver d e hm =>
    refine ⟨fun n x hx => ?_, fun x r hr => ?_⟩
    · rw [hm.networkDevices] at hx
      rw [hm.connectionState]
      rcases mem_onNetwork hx with hx | ⟨hσ, -⟩
      · exact onState_ne (h.network n x hx)
      · obtain ⟨rfl, hw, -⟩ := hm.step.inserts (hsh.fits d) hσ
        exact onState_ne (by rw [hw]; simp)
    · rw [hm.receiver] at hr
      rw [hm.connectionState]
      split at hr
      · rcases hm.step.mentions hr with hr | ⟨n, hr⟩
        · exact onState_ne (h.mentioned d r hr)
        · exact onState_ne (h.network n r hr)
      · exact onState_ne (h.mentioned x r hr)
  | wake d hw => exact ⟨h.network, h.mentioned⟩

theorem Known.reach {G : Server → Action → Prop} (h : (relay C).ReachWhen G s) : Known s :=
  h.induct (fun _ => Known.starts) fun _ _ _ hr hi _ hs => hi.step (Shape.reach hr) (Server.step_moves hs)

end ServerRoom.Relay
