import Mathlib.Tactic.Common
import ServerRoom.Spec.History

/-!
# What the threads of the relay server can do

`HandlerPc.Step`, `SenderPc.Step` and `ReceiverPc.Step` list the steps of each thread with
the statement executed and the event recorded; `Server.step_moves` says that a step of the
server is one of these followed by the statement, or one of `accept`, `main` and a wake-up.
`Stmt.onDevice` is the effect of a statement on one device's record.
-/

namespace ServerRoom.Relay

variable {C : Crypto}

/-- The steps of `handle_device`. What the static buffer of `HMAC` holds is arbitrary here. -/
inductive HandlerPc.Step (C : Crypto) (d : ℕ) (st : ConnectionState) :
    HandlerPc → Stmt → Option Event → HandlerPc → Prop
  | acquire : Step C d st .acquire (.acquire d) none .createSender
  | createSender : Step C d st .createSender (.createSender d) none .createReceiver
  | noSender : Step C d st .createSender .skip none .failed
  | createReceiver : Step C d st .createReceiver (.createReceiver d) none .hmac
  | noReceiver : Step C d st .createReceiver .skip none .failed
  | hmac (stack : NetworkMessage) : Step C d st .hmac (.hmac (digestOf C (unsignedPing stack))) none
      (.sign (unsignedPing stack))
  | sign (m : NetworkMessage) (digest : List UInt8) : Step C d st (.sign m) .skip none (.lock (signPing digest m))
  | lock (m : NetworkMessage) : Step C d st (.lock m) (.lockBuffer d) none (.push m)
  | push (m : NetworkMessage) : Step C d st (.push m) (.pushBack d m) (some (.appended d m none)) .signal
  | signal : Step C d st .signal (.signal d) none .unlock
  | unlock : Step C d st .unlock (.unlockBuffer d) none .state
  | ended : st = .ended → Step C d st .state .skip none .release
  | again : st ≠ .ended → Step C d st .state .skip none .hmac
  | release : Step C d st .release (.release d) none .done

/-- The steps of `handle_device_sender`. -/
inductive SenderPc.Step (d : ℕ) (data : DeviceData) : SenderPc → Stmt → Option Event → SenderPc → Prop
  | acquire : Step d data .acquire (.acquire d) none .lock
  | lock : Step d data .lock (.lockBuffer d) none .wait
  | wait : Step d data .wait (.wait d) none .waiting
  | woken : Step d data .woken (.lockBuffer d) none (.drain 0)
  | send (i : ℕ) (m : NetworkMessage) (results : List (Option ℕ)) : data.sendingBuffer[i]? = some m →
      Step d data (.drain i) (.sendMessage d m) (some (.passed d m results)) (.drain (i + 1))
  | clear (i : ℕ) : data.sendingBuffer.length ≤ i → Step d data (.drain i) (.clear d) none .unlock
  | unlock : Step d data .unlock (.unlockBuffer d) none .state
  | ended : data.connectionState = .ended → Step d data .state .skip none .release
  | again : data.connectionState ≠ .ended → Step d data .state .skip none .lock
  | release : Step d data .release (.release d) none .done

/-- The steps of `handle_device_receiver`. -/
inductive ReceiverPc.Step (C : Crypto) (d : ℕ) (data : DeviceData) (network : UInt32 → Finset ℕ) :
    ReceiverPc → Stmt → Option Event → ReceiverPc → Prop
  | acquire : Step C d data network .acquire (.acquire d) none .start
  | start (now : ℕ) : Step C d data network .start (.setLast d now) none (.test now)
  | inTime (l : ℕ) : Step C d data network (.test l) .skip none .read
  | timeOut (l : ℕ) : Step C d data network (.test l) .skip none .leave
  | read (b : Packed) : Step C d data network .read .skip (some (.received d (recvd b).wire)) (.check (recvd b))
  | readFails : Step C d data network .read .skip none .leave
  | otherNetwork (m : NetworkMessage) : (ntohConversions m).bytes.networkId ≠ 0 →
      Step C d data network (.check m) .skip none .last
  | hmac (m : NetworkMessage) : (ntohConversions m).bytes.networkId = 0 →
      Step C d data network (.check m) (.hmac (digestOf C (ntohConversions m))) none (.compare (ntohConversions m))
  | verified (m : NetworkMessage) :
      Step C d data network (.compare m) .skip (some (.verified d (htonConversions m).wire)) (.stamp m)
  | rejected (m : NetworkMessage) : Step C d data network (.compare m) .skip none .last
  | stampFirst (m : NetworkMessage) (now : ℕ) : data.connectionState = .intialization →
      Step C d data network (.stamp m) (.setLast d now) none (.setWorking m)
  | stampLater (m : NetworkMessage) (now : ℕ) : data.connectionState ≠ .intialization →
      Step C d data network (.stamp m) (.setLast d now) none (.dispatch m)
  | setWorking (m : NetworkMessage) :
      Step C d data network (.setWorking m) (.setWorking d m.bytes.networkId) none (.addAcquire m)
  | addAcquire (m : NetworkMessage) : Step C d data network (.addAcquire m) (.acquire d) none (.addLock m)
  | addLock (m : NetworkMessage) : Step C d data network (.addLock m) .lockNetwork none (.addInsert m)
  | addInsert (m : NetworkMessage) : Step C d data network (.addInsert m) (.insert d) none (.addUnlock m)
  | addUnlock (m : NetworkMessage) : Step C d data network (.addUnlock m) .unlockNetwork none (.dispatch m)
  | ping (m : NetworkMessage) : isPing (htonConversions m) = true →
      Step C d data network (.dispatch m) .skip none .last
  | accept (m : NetworkMessage) : isPing (htonConversions m) = false →
      Step C d data network (.dispatch m) .skip (some (.accepted d (htonConversions m)))
        (.castLock (htonConversions m))
  | castLock (m : NetworkMessage) :
      Step C d data network (.castLock m) .lockNetwork (some (.copied d (network (ntohl m.bytes.networkId))))
        (.castCopy m (network (ntohl m.bytes.networkId)) [])
  | castPick (m : NetworkMessage) (todo : Finset ℕ) (current : List ℕ) (r : ℕ) : r ∈ todo →
      Step C d data network (.castCopy m todo current) (.acquire r) none
        (.castCopy m (todo.erase r) (current ++ [r]))
  | castCopied (m : NetworkMessage) (current : List ℕ) :
      Step C d data network (.castCopy m ∅ current) .unlockNetwork none (.castNext m current)
  | castReturn (m : NetworkMessage) : Step C d data network (.castNext m []) .skip (some (.returned d)) .last
  | castNext (m : NetworkMessage) (r : ℕ) (rest : List ℕ) :
      Step C d data network (.castNext m (r :: rest)) (.lockBuffer r) none (.castPush m r rest)
  | castPush (m : NetworkMessage) (r : ℕ) (rest : List ℕ) :
      Step C d data network (.castPush m r rest) (.pushBack r m) (some (.appended r m (some d)))
        (.castRelease m r rest)
  | castRelease (m : NetworkMessage) (r : ℕ) (rest : List ℕ) :
      Step C d data network (.castRelease m r rest) (.release r) none (.castSignal m r rest)
  | castSignal (m : NetworkMessage) (r : ℕ) (rest : List ℕ) :
      Step C d data network (.castSignal m r rest) (.signal r) none (.castUnlock m r rest)
  | castUnlock (m : NetworkMessage) (r : ℕ) (rest : List ℕ) :
      Step C d data network (.castUnlock m r rest) (.unlockBuffer r) none (.castNext m rest)
  | last : Step C d data network .last .skip none (.test data.lastMessageFromClient)
  | leave : data.connectionState = .working → Step C d data network .leave .skip none .removeLock
  | leaveEarly : data.connectionState ≠ .working → Step C d data network .leave .skip none .setEnded
  | removeLock : Step C d data network .removeLock .lockNetwork none .removeErase
  | removeErase : Step C d data network .removeErase (.erase d) none .removeUnlock
  | removeUnlock : Step C d data network .removeUnlock .unlockNetwork none .removeRelease
  | removeRelease : Step C d data network .removeRelease (.release d) none .setEnded
  | setEnded : Step C d data network .setEnded (.setEnded d) none .finalLock
  | finalLock : Step C d data network .finalLock (.lockBuffer d) none .finalSignal
  | finalSignal : Step C d data network .finalSignal (.signal d) none .finalUnlock
  | finalUnlock : Step C d data network .finalUnlock (.unlockBuffer d) none .release
  | release : Step C d data network .release (.release d) none .done

theorem HandlerPc.next_step {d : ℕ} {data : DeviceData} {digest : List UInt8} {e : Env} {p p' : HandlerPc}
    {σ : Stmt} (h : p.next C d data digest e = some (σ, p')) :
    p.Step C d data.connectionState σ (p.event d) p' := by
  cases p <;> simp only [HandlerPc.next, reduceCtorEq] at h
  case createSender =>
    split at h <;> cases h
    exacts [.createSender, .noSender]
  case createReceiver =>
    split at h <;> cases h
    exacts [.createReceiver, .noReceiver]
  case state =>
    split at h <;> rename_i hst <;> cases h
    exacts [.ended hst, .again hst]
  all_goals cases h; constructor

theorem SenderPc.next_step {d : ℕ} {data : DeviceData} {p p' : SenderPc} {σ : Stmt}
    (h : p.next d data = some (σ, p')) (e : Env) : p.Step d data σ (p.event d data e) p' := by
  cases p <;> simp only [SenderPc.next, reduceCtorEq] at h
  case drain i =>
    simp only [SenderPc.event]
    split at h <;> rename_i hm <;> cases h <;> rw [hm]
    · exact .send i _ e.results hm
    · exact .clear i (List.getElem?_eq_none_iff.1 hm)
  case state =>
    split at h <;> rename_i hst <;> cases h
    exacts [.ended hst, .again hst]
  all_goals cases h; constructor

theorem ReceiverPc.next_step {d : ℕ} {data : DeviceData} {network : UInt32 → Finset ℕ} {digest : List UInt8}
    {e : Env} {p p' : ReceiverPc} {σ : Stmt} (h : p.next C d data network digest e = some (σ, p')) :
    p.Step C d data network σ (p.event d network digest e) p' := by
  cases p <;> simp only [ReceiverPc.next, reduceCtorEq] at h
  case test l =>
    split at h <;> cases h
    exacts [.inTime l, .timeOut l]
  case read =>
    simp only [ReceiverPc.event]
    split at h <;> rename_i hr <;> cases h <;> rw [hr]
    exacts [.read _, .readFails]
  case check m =>
    split at h <;> rename_i hid <;> cases h
    exacts [.otherNetwork m hid, .hmac m (not_not.1 hid)]
  case compare m =>
    simp only [ReceiverPc.event]
    split at h <;> rename_i hv <;> cases h
    · rw [if_pos hv]; exact .verified m
    · rw [if_neg hv]; exact .rejected m
  case stamp m =>
    split at h <;> rename_i hst <;> cases h
    exacts [.stampFirst m _ hst, .stampLater m _ hst]
  case dispatch m =>
    simp only [ReceiverPc.event]
    split at h <;> rename_i hp <;> cases h
    · rw [if_pos hp]; exact .ping m hp
    · rw [if_neg hp]; exact .accept m (by simpa using hp)
  case castCopy m todo current =>
    split at h
    · rename_i h0
      cases h; cases h0
      exact .castCopied m current
    · split at h <;> rename_i hr <;> cases h
      exact .castPick m todo current _ hr
  case castNext m rest =>
    cases rest <;> cases h
    exacts [.castReturn m, .castNext m _ _]
  case leave =>
    split at h <;> rename_i hst <;> cases h
    exacts [.leave hst, .leaveEarly hst]
  all_goals cases h; constructor

/-! ## The effect of a statement -/

/-- What a statement of thread `t` does to the record of device `d`. -/
def Stmt.onDevice (t : Thread) (d : ℕ) (x : DeviceData) : Stmt → DeviceData
  | .acquire r => if r = d then { x with memoryPointers := x.memoryPointers + 1 } else x
  | .release r =>
    if r = d then
      { x with
        memoryPointers := x.memoryPointers - 1
        deletes := if x.memoryPointers - 1 = 0 then x.deletes + 1 else x.deletes }
    else x
  | .lockBuffer r => if r = d then { x with newMessageMutex := some t } else x
  | .unlockBuffer r | .wait r => if r = d then { x with newMessageMutex := none } else x
  | .pushBack r m => if r = d then { x with sendingBuffer := x.sendingBuffer ++ [m] } else x
  | .clear r => if r = d then { x with sendingBuffer := [] } else x
  | .setLast r now => if r = d then { x with lastMessageFromClient := now } else x
  | .setWorking r n => if r = d then { x with networkId := n, connectionState := .working } else x
  | .setEnded r => if r = d then { x with connectionState := .ended } else x
  | _ => x

/-- What a statement does to the sender of device `d`. -/
def Stmt.onSender (d : ℕ) (p : SenderPc) : Stmt → SenderPc
  | .signal r => if r = d ∧ p = .waiting then .woken else p
  | .createSender r => if r = d then .acquire else p
  | _ => p

/-- What a statement does to the receiver of device `d`. -/
def Stmt.onReceiver (d : ℕ) (p : ReceiverPc) : Stmt → ReceiverPc
  | .createReceiver r => if r = d then .acquire else p
  | _ => p

/-- What a statement does to the registry. -/
def Stmt.onNetwork (s : Server) : Stmt → UInt32 → Finset ℕ
  | .insert r => Function.update s.networkDevices (s.device r).networkId
      (s.insertDevice r (s.networkDevices (s.device r).networkId))
  | .erase r => Function.update s.networkDevices (s.device r).networkId
      (s.eraseDevice r (s.networkDevices (s.device r).networkId))
  | _ => s.networkDevices

/-- What a statement of thread `t` does to `network_devices_mutex`. -/
def Stmt.onNetworkMutex (t : Thread) (owner : Option Thread) : Stmt → Option Thread
  | .lockNetwork => some t
  | .unlockNetwork => none
  | _ => owner

/-- What a statement leaves in the static buffer of `HMAC`. -/
def Stmt.onDigest (digest : List UInt8) : Stmt → List UInt8
  | .hmac digest => digest
  | _ => digest

/-- The descriptors that stay open. -/
def Stmt.onFds (s : Server) : Stmt → Finset ℕ
  | .release r => if (s.device r).memoryPointers - 1 = 0 then s.openFds.erase (s.device r).sockfd else s.openFds
  | _ => s.openFds

/-- A lock is taken only when it is free. -/
def Stmt.Ready (s : Server) : Stmt → Prop
  | .lockNetwork => s.networkMutex = none
  | .lockBuffer r => (s.device r).newMessageMutex = none
  | _ => True

/-- **The effect of a statement of thread `t`** on the shared data, one field at a time. -/
structure Server.Effect (s : Server) (t : Thread) (σ : Stmt) (s' : Server) : Prop where
  ready : σ.Ready s
  device : ∀ d, s'.device d = σ.onDevice t d (s.device d)
  networkDevices : s'.networkDevices = σ.onNetwork s
  networkMutex : s'.networkMutex = σ.onNetworkMutex t s.networkMutex
  digest : s'.digest = σ.onDigest s.digest
  openFds : s'.openFds = σ.onFds s
  connected : s'.connected = s.connected
  created : s'.created = s.created

/-- The effect of a statement on the threads. -/
structure Server.ThreadEffect (s : Server) (σ : Stmt) (s' : Server) : Prop where
  handler : ∀ d, s'.handler d = s.handler d
  sender : ∀ d, s'.sender d = σ.onSender d (s.sender d)
  receiver : ∀ d, s'.receiver d = σ.onReceiver d (s.receiver d)

theorem Server.modify_device (s : Server) (r d : ℕ) (f : DeviceData → DeviceData) :
    (s.modify r f).device d = if r = d then f (s.device d) else s.device d := by
  unfold Server.modify
  by_cases h : r = d
  · subst h; simp
  · simp [h, Function.update_of_ne (Ne.symm h)]

theorem Server.release_device (s : Server) (t : Thread) (r d : ℕ) :
    (s.release r).device d = (Stmt.release r).onDevice t d (s.device d) := by
  simp only [Stmt.onDevice]
  unfold Server.release
  by_cases h : r = d
  · subst h
    by_cases h0 : (s.device r).memoryPointers - 1 = 0 <;> simp [h0]
  · by_cases h0 : (s.device r).memoryPointers - 1 = 0 <;>
      simp [h0, h, Function.update_of_ne (Ne.symm h)]

theorem Server.exec_effect {s s' : Server} {t : Thread} {σ : Stmt} (h : s.exec t σ = some s') :
    s.Effect t σ s' ∧ s.ThreadEffect σ s' := by
  cases σ <;> simp only [Server.exec, Option.some.injEq] at h
  case lockNetwork =>
    split at h <;> cases h
    rename_i hfree
    exact ⟨⟨hfree, fun _ => rfl, rfl, rfl, rfl, rfl, rfl, rfl⟩, fun _ => rfl, fun _ => rfl, fun _ => rfl⟩
  case lockBuffer r =>
    split at h <;> cases h
    rename_i hfree
    exact ⟨⟨hfree, fun d => s.modify_device r d _, rfl, rfl, rfl, rfl, rfl, rfl⟩, fun _ => rfl, fun _ => rfl,
      fun _ => rfl⟩
  case release r =>
    subst h
    -- whether it deletes the device or not
    have hrest : (s.release r).networkDevices = s.networkDevices ∧
        (s.release r).networkMutex = s.networkMutex ∧ (s.release r).digest = s.digest ∧
        (s.release r).openFds = (Stmt.release r).onFds s ∧
        (s.release r).connected = s.connected ∧ (s.release r).created = s.created ∧
        (s.release r).handler = s.handler ∧ (s.release r).sender = s.sender ∧
        (s.release r).receiver = s.receiver := by
      simp only [Stmt.onFds]
      unfold Server.release
      by_cases h0 : (s.device r).memoryPointers - 1 = 0 <;> simp [h0]
    obtain ⟨h1, h2, h3, h4, h5, h6, h7, h8, h9⟩ := hrest
    exact ⟨⟨trivial, fun d => s.release_device t r d, h1, h2, h3, h4, h5, h6⟩, congrFun h7, congrFun h8,
      congrFun h9⟩
  case signal r =>
    subst h
    -- only a sender that waits is woken
    by_cases hw : s.sender r = .waiting
    · rw [if_pos hw]
      refine ⟨⟨trivial, fun _ => rfl, rfl, rfl, rfl, rfl, rfl, rfl⟩, fun _ => rfl, fun d => ?_, fun _ => rfl⟩
      by_cases hd : r = d
      · subst hd; simp [Stmt.onSender, hw]
      · simp [Stmt.onSender, hd, Function.update_of_ne (Ne.symm hd)]
    · rw [if_neg hw]
      refine ⟨⟨trivial, fun _ => rfl, rfl, rfl, rfl, rfl, rfl, rfl⟩, fun _ => rfl, fun d => ?_, fun _ => rfl⟩
      have hno : ¬ (r = d ∧ s.sender d = .waiting) := by rintro ⟨rfl, h⟩; exact hw h
      simp only [Stmt.onSender, if_neg hno]
  case createSender r =>
    subst h
    refine ⟨⟨trivial, fun _ => rfl, rfl, rfl, rfl, rfl, rfl, rfl⟩, fun _ => rfl, fun d => ?_, fun _ => rfl⟩
    by_cases hd : r = d
    · subst hd; simp [Stmt.onSender]
    · simp [Stmt.onSender, hd, Function.update_of_ne (Ne.symm hd)]
  case createReceiver r =>
    subst h
    refine ⟨⟨trivial, fun _ => rfl, rfl, rfl, rfl, rfl, rfl, rfl⟩, fun _ => rfl, fun _ => rfl, fun d => ?_⟩
    by_cases hd : r = d
    · subst hd; simp [Stmt.onReceiver]
    · simp [Stmt.onReceiver, hd, Function.update_of_ne (Ne.symm hd)]
  -- the others change the fields of one device, the registry, or its mutex
  all_goals
    subst h
    first
    | exact ⟨⟨trivial, fun d => s.modify_device _ d _, rfl, rfl, rfl, rfl, rfl, rfl⟩, fun _ => rfl, fun _ => rfl,
        fun _ => rfl⟩
    | exact ⟨⟨trivial, fun _ => rfl, rfl, rfl, rfl, rfl, rfl, rfl⟩, fun _ => rfl, fun _ => rfl, fun _ => rfl⟩

/-- A signal wakes, and a handler creates, threads that do not execute the statement. -/
theorem SenderPc.Step.leaves {d : ℕ} {data : DeviceData} {p p' : SenderPc} {σ : Stmt} {ev : Option Event}
    (h : p.Step d data σ ev p') (x : ℕ) (q : SenderPc) (q' : ReceiverPc) :
    σ.onSender x q = q ∧ σ.onReceiver x q' = q' := by
  cases h <;> exact ⟨rfl, rfl⟩

theorem ReceiverPc.Step.leaves {d : ℕ} {data : DeviceData} {network : UInt32 → Finset ℕ} {p p' : ReceiverPc}
    {σ : Stmt} {ev : Option Event} (h : p.Step C d data network σ ev p') (x : ℕ) (q : ReceiverPc) :
    σ.onReceiver x q = q := by
  cases h <;> rfl

/-! ## The steps of the server -/

/-- A step of `handle_device`. It completes its message with what the static buffer holds. -/
structure HandlerMove (C : Crypto) (s : Server) (d : ℕ) (σ : Stmt) (ev : Option Event) (p : HandlerPc)
    (s' : Server) : Prop extends s.Effect (.handler d) σ s' where
  step : (s.handler d).Step C d (s.device d).connectionState σ ev p
  signs : ∀ m, s.handler d = .sign m → p = .lock (signPing s.digest m)
  handler : ∀ x, s'.handler x = if x = d then p else s.handler x
  sender : ∀ x, s'.sender x = σ.onSender x (s.sender x)
  receiver : ∀ x, s'.receiver x = σ.onReceiver x (s.receiver x)

/-- A step of `handle_device_sender`. -/
structure SenderMove (s : Server) (d : ℕ) (σ : Stmt) (ev : Option Event) (p : SenderPc)
    (s' : Server) : Prop extends s.Effect (.sender d) σ s' where
  step : (s.sender d).Step d (s.device d) σ ev p
  handler : ∀ x, s'.handler x = s.handler x
  sender : ∀ x, s'.sender x = if x = d then p else s.sender x
  receiver : ∀ x, s'.receiver x = s.receiver x

/-- A step of `handle_device_receiver`. It compares its message with what the static buffer holds. -/
structure ReceiverMove (C : Crypto) (s : Server) (d : ℕ) (σ : Stmt) (ev : Option Event) (p : ReceiverPc)
    (s' : Server) : Prop extends s.Effect (.receiver d) σ s' where
  step : (s.receiver d).Step C d (s.device d) s.networkDevices σ ev p
  compares : ∀ m, s.receiver d = .compare m → p = if isSignedBy s.digest m then .stamp m else .last
  handler : ∀ x, s'.handler x = s.handler x
  sender : ∀ x, s'.sender x = σ.onSender x (s.sender x)
  receiver : ∀ x, s'.receiver x = if x = d then p else s.receiver x

/-- The record of a device that was just created. -/
def newDevice (fd : ℕ) (networkId : UInt32) (last : ℕ) : DeviceData :=
  ⟨fd, networkId, .intialization, 0, [], last, none, 0⟩

/-- A step of `main`: a new device. -/
structure CreateMove (s : Server) (fd : ℕ) (data : DeviceData) (p : HandlerPc) (s' : Server) : Prop where
  connected : s.connected = fd :: s'.connected
  start : p = .acquire ∨ p = .absent
  device : ∀ x, s'.device x = if x = s.created then data else s.device x
  networkDevices : s'.networkDevices = s.networkDevices
  networkMutex : s'.networkMutex = s.networkMutex
  digest : s'.digest = s.digest
  openFds : s'.openFds = s.openFds
  created : s'.created = s.created + 1
  handler : ∀ x, s'.handler x = if x = s.created then p else s.handler x
  sender : ∀ x, s'.sender x = s.sender x
  receiver : ∀ x, s'.receiver x = s.receiver x

/-- The steps of the server, each with the event that it records. -/
inductive Server.Moves (C : Crypto) (s : Server) : Action → Option Event → Server → Prop
  | accept (fd : ℕ) : fd ∉ s.openFds →
      Moves C s (.accept fd) none { s with openFds := insert fd s.openFds, connected := fd :: s.connected }
  | create (fd : ℕ) (launched : Bool) (networkId : UInt32) (last : ℕ) {p : HandlerPc} {s' : Server} :
      CreateMove s fd (newDevice fd networkId last) p s' →
      Moves C s (.create launched networkId last) none s'
  | handler (d : ℕ) (e : Env) {σ : Stmt} {ev : Option Event} {p : HandlerPc} {s' : Server} :
      HandlerMove C s d σ ev p s' → Moves C s (.handler d e) ev s'
  | sender (d : ℕ) (e : Env) {σ : Stmt} {ev : Option Event} {p : SenderPc} {s' : Server} :
      SenderMove s d σ ev p s' → Moves C s (.sender d e) ev s'
  | receiver (d : ℕ) (e : Env) {σ : Stmt} {ev : Option Event} {p : ReceiverPc} {s' : Server} :
      ReceiverMove C s d σ ev p s' → Moves C s (.receiver d e) ev s'
  | wake (d : ℕ) : s.sender d = .waiting →
      Moves C s (.wake d) none { s with sender := Function.update s.sender d .woken }

theorem Server.create_move {s : Server} {fd : ℕ} {rest : List ℕ} (launched : Bool) (networkId : UInt32)
    (last : ℕ) (h : s.connected = fd :: rest) :
    CreateMove s fd (newDevice fd networkId last) (if launched then .acquire else .absent)
      (s.create fd rest launched networkId last) where
  connected := h
  start := by cases launched <;> simp
  device _ := Function.update_apply ..
  networkDevices := rfl
  networkMutex := rfl
  digest := rfl
  openFds := rfl
  created := rfl
  handler _ := Function.update_apply ..
  sender _ := rfl
  receiver _ := rfl

/-- **What a step of the server can be.** -/
theorem Server.step_moves {s s' : Server} {a : Action} (h : s.step C a = some s') :
    s.Moves C a (s.event a) s' := by
  cases a <;> simp only [Server.step] at h
  case accept fd =>
    split at h <;> cases h
    rename_i hfd
    exact .accept fd hfd
  case create launched networkId last =>
    split at h <;> cases h
    rename_i hc
    exact .create _ launched networkId last (s.create_move launched networkId last hc)
  case handler d e =>
    obtain ⟨⟨σ, p⟩, hn, h⟩ := Option.bind_eq_some_iff.1 h
    obtain ⟨s₁, he, rfl⟩ := Option.map_eq_some_iff.1 h
    obtain ⟨he, ht⟩ := Server.exec_effect he
    refine .handler d e ⟨⟨he.ready, he.device, he.networkDevices, he.networkMutex, he.digest, he.openFds,
      he.connected, he.created⟩, HandlerPc.next_step hn, fun m hp => ?_, fun x => ?_, ht.sender, ht.receiver⟩
    · rw [hp] at hn
      cases hn
      rfl
    · show Function.update s₁.handler d p x = _
      rw [Function.update_apply, ht.handler]
  case sender d e =>
    obtain ⟨⟨σ, p⟩, hn, h⟩ := Option.bind_eq_some_iff.1 h
    obtain ⟨s₁, he, rfl⟩ := Option.map_eq_some_iff.1 h
    obtain ⟨he, ht⟩ := Server.exec_effect he
    have hstep := SenderPc.next_step hn e
    refine .sender d e ⟨⟨he.ready, he.device, he.networkDevices, he.networkMutex, he.digest, he.openFds,
      he.connected, he.created⟩, hstep, ht.handler, fun x => ?_, fun x => ?_⟩
    · -- a sender's statement wakes and creates no sender
      show Function.update s₁.sender d p x = _
      rw [Function.update_apply, ht.sender, (hstep.leaves x (s.sender x) .absent).1]
    · show s₁.receiver x = _
      rw [ht.receiver, (hstep.leaves x .absent (s.receiver x)).2]
  case receiver d e =>
    obtain ⟨⟨σ, p⟩, hn, h⟩ := Option.bind_eq_some_iff.1 h
    obtain ⟨s₁, he, rfl⟩ := Option.map_eq_some_iff.1 h
    obtain ⟨he, ht⟩ := Server.exec_effect he
    have hstep := ReceiverPc.next_step hn
    refine .receiver d e ⟨⟨he.ready, he.device, he.networkDevices, he.networkMutex, he.digest, he.openFds,
      he.connected, he.created⟩, hstep, fun m hp => ?_, ht.handler, ht.sender, fun x => ?_⟩
    · rw [hp] at hn
      simp only [ReceiverPc.next] at hn
      split at hn <;> rename_i hv <;> cases hn
      exacts [(if_pos hv).symm, (if_neg hv).symm]
    · show Function.update s₁.receiver d p x = _
      rw [Function.update_apply, ht.receiver, hstep.leaves]
  case wake d =>
    split at h <;> cases h
    rename_i hw
    exact .wake d hw

end ServerRoom.Relay
