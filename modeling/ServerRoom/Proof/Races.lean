import Mathlib.Algebra.Order.BigOperators.Group.Finset
import ServerRoom.Proof.Deadlock
import ServerRoom.Proof.Digest
import ServerRoom.Spec.Accesses

/-!
# The data races of the relay server

* `Server.statement_spec`: what a thread has when it is about to execute a statement.
* `Server.accesses_refs`: a thread that accesses a device has a reference to it, or gets one, or
  finds the device in the registry, which has one.
* `allows`: every access respects the discipline of `Location.guard`.
* `disposes_alone`: who takes the last reference to a device is alone with its data.
* `no_race`: so nobody is about to write, or to delete, what another thread is about to access,
  except for the buffer of `HMAC`.
* `data_race_iff`: there it can happen; and a step changes only what its party was about to write.
-/

namespace ServerRoom.Relay

open Races Sharing

variable {C : Crypto} {s s' : Locking} {x x' : Server} {t u : Thread} {σ : Stmt} {ev : Option Event} {e : Env}
  {l : Location} {i : Mode} {d : ℕ}

/-! ## What an access needs -/

/-- **What a thread has when it is about to execute a statement.** -/
theorem Server.statement_spec (hsh : Shape x) (h : x.statement C e t = some σ) :
    (∃ b, σ.Buffer (x.buffer t) b) ∧ (∃ n, σ.Network (x.inNetwork t) n) ∧
      ∀ d, σ.released d ≤ x.refs d t + σ.acquired d := by
  cases t with
  | handler y =>
    obtain ⟨⟨σ', p⟩, hn, rfl⟩ := Option.map_eq_some_iff.1 h
    obtain ⟨hbuf, hnet, href⟩ := (HandlerPc.next_step hn).locks
    refine ⟨⟨_, hbuf⟩, ⟨_, hnet⟩, fun d => ?_⟩
    have := href d
    show σ'.released d ≤ (if y = d then _ else 0) + σ'.acquired d
    omega
  | sender y =>
    obtain ⟨⟨σ', p⟩, hn, rfl⟩ := Option.map_eq_some_iff.1 h
    obtain ⟨hbuf, hnet, href⟩ := (SenderPc.next_step hn e).locks
    refine ⟨⟨_, hbuf⟩, ⟨_, hnet⟩, fun d => ?_⟩
    have := href d
    show σ'.released d ≤ (if y = d then _ else 0) + σ'.acquired d
    omega
  | receiver y =>
    obtain ⟨⟨σ', p⟩, hn, rfl⟩ := Option.map_eq_some_iff.1 h
    have hstep := ReceiverPc.next_step hn
    obtain ⟨hbuf, hnet⟩ := hstep.buffer
    refine ⟨⟨_, hbuf⟩, ⟨_, hnet⟩, fun d => ?_⟩
    have := hstep.refs (hsh.fits y) d
    show σ'.released d ≤ (if y = d then _ else 0) + _ + σ'.acquired d
    omega

/-- The device whose record a statement works on. -/
def Stmt.device : Stmt → Option ℕ
  | .acquire d | .release d | .insert d | .erase d | .pushBack d _ | .clear d | .sendMessage d _ | .setLast d _
  | .setWorking d _ | .setEnded d => some d
  | _ => none

/-- A statement accesses its own device, or one in the registry. -/
theorem Stmt.Accesses.device (h : σ.Accesses x l i) (hl : l.device = some d) :
    σ.device = some d ∨ ∃ n, d ∈ x.networkDevices n := by
  cases h <;> cases hl
  case insertFds.refl y hmem => exact .inr ⟨_, hmem⟩
  case eraseFds.refl y hmem => exact .inr ⟨_, hmem⟩
  all_goals exact .inl rfl

theorem HandlerPc.Step.device {st : ConnectionState} {y : ℕ} {p p' : HandlerPc} (h : p.Step C y st σ ev p')
    (hd : σ.device = some d) : y = d ∧ (p.holds = true ∨ σ = .acquire d) := by
  cases h <;> simp only [Stmt.device, reduceCtorEq, Option.some.injEq] at hd <;> subst hd
  case acquire => exact ⟨rfl, .inr rfl⟩
  all_goals exact ⟨rfl, .inl rfl⟩

theorem SenderPc.Step.device {data : DeviceData} {y : ℕ} {p p' : SenderPc} (h : p.Step y data σ ev p')
    (hd : σ.device = some d) : y = d ∧ (p.holds = true ∨ σ = .acquire d) := by
  cases h <;> simp only [Stmt.device, reduceCtorEq, Option.some.injEq] at hd <;> subst hd
  case acquire => exact ⟨rfl, .inr rfl⟩
  all_goals exact ⟨rfl, .inl rfl⟩

/-- A receiver works on its own device, on one that its broadcast has a reference to, and acquires
those that it finds in the registry. -/
theorem ReceiverPc.Step.device {data : DeviceData} {network : UInt32 → Finset ℕ} {y : ℕ} {p p' : ReceiverPc}
    (h : p.Step C y data network σ ev p') (hd : σ.device = some d) :
    y = d ∧ (p.holds = true ∨ σ = .acquire d) ∨ d ∈ p.current ∨
      σ = .acquire d ∧ ∃ m todo current, p = .castCopy m todo current ∧ d ∈ todo := by
  cases h <;> simp only [Stmt.device, reduceCtorEq, Option.some.injEq] at hd <;> subst hd
  case acquire => exact .inl ⟨rfl, .inr rfl⟩
  case castPick hr => exact .inr (.inr ⟨rfl, _, _, _, rfl, hr⟩)
  case castPush m rest => exact .inr (.inl List.mem_cons_self)
  case castRelease m rest => exact .inr (.inl List.mem_cons_self)
  all_goals exact .inl ⟨rfl, .inl rfl⟩

theorem refs_of_holds_receiver {y : ℕ} (h : (x.receiver y).holds = true) : 0 < x.refs y (.receiver y) := by
  simp only [Server.refs, if_true, ReceiverPc.ownRefs, h, Bool.toNat_true]
  omega

/-- **A thread that works on a device has a reference to it**, unless it acquires it. -/
theorem Server.statement_device (h : x.statement C e t = some σ) (hd : σ.device = some d) :
    0 < x.refs d t ∨ σ = .acquire d := by
  cases t with
  | handler y =>
    obtain ⟨⟨σ', p⟩, hn, rfl⟩ := Option.map_eq_some_iff.1 h
    obtain ⟨rfl, hh | ha⟩ := (HandlerPc.next_step hn).device hd
    · left
      simp [Server.refs, hh]
    · exact .inr ha
  | sender y =>
    obtain ⟨⟨σ', p⟩, hn, rfl⟩ := Option.map_eq_some_iff.1 h
    obtain ⟨rfl, hh | ha⟩ := (SenderPc.next_step hn e).device hd
    · left
      simp [Server.refs, hh]
    · exact .inr ha
  | receiver y =>
    obtain ⟨⟨σ', p⟩, hn, rfl⟩ := Option.map_eq_some_iff.1 h
    rcases (ReceiverPc.next_step hn).device hd with ⟨rfl, hh | ha⟩ | hcur | ⟨ha, -⟩
    · exact .inl (refs_of_holds_receiver hh)
    · exact .inr ha
    · left
      have hpos := List.count_pos_iff.2 hcur
      simp only [Server.refs]
      omega
    · exact .inr ha

/-- A thread that reads a device at its program counter has a reference to it. -/
theorem Server.Reads.refs (h : x.Reads l t) (hl : l.device = some d) : 0 < x.refs d t := by
  cases t with
  | handler y =>
    have h : (x.handler y).Reads y l := h
    cases hp : x.handler y <;> rw [hp] at h <;> simp only [HandlerPc.Reads] at h <;> subst h <;> cases hl
    simp [Server.refs, hp, HandlerPc.holds]
  | sender y =>
    have h : (x.sender y).Reads y l := h
    cases hp : x.sender y <;> rw [hp] at h <;> simp only [SenderPc.Reads] at h <;> subst h <;> cases hl <;>
      simp [Server.refs, hp, SenderPc.holds]
  | receiver y =>
    have h : (x.receiver y).Reads y l := h
    cases hp : x.receiver y <;> rw [hp] at h <;> simp only [ReceiverPc.Reads] at h <;> subst h <;> cases hl <;>
      exact refs_of_holds_receiver (by rw [hp]; rfl)

theorem lt_created_of_refs (hsh : Shape x) (hk : Known x) (h : 0 < x.refs d t) : d < x.created := by
  refine Nat.lt_of_not_le fun hle => ?_
  have hzero := refs_eq_zero hsh hk (.inl (hsh.handler d hle)) t
  omega

/-- The receiver of a device in the registry runs, and two references are accounted to it. -/
theorem ListedAt.two_refs {n : UInt32} (h : ListedAt x n d) (hsh : Shape x) :
    d < x.created ∧ 2 ≤ x.refs d (.receiver d) := by
  have hfit := hsh.fits d
  have hl := h.listed
  rw [h.working] at hfit
  refine ⟨hsh.lt_created (hsh.present h.working), ?_⟩
  simp only [Server.refs, if_true, ReceiverPc.ownRefs, h.working, true_and]
  cases hp : x.receiver d <;> rw [hp] at hl hfit <;> first | cases hl; done | cases hfit; done | skip
  all_goals simp [ReceiverPc.holds, ReceiverPc.registryHolds]

/-- A device that is acquired exists. -/
theorem Server.acquire_lt_created (hsh : Shape x) (hk : Known x) (hli : Listed x) (hco : Copying x)
    (h : x.statement C e t = some (.acquire d)) : d < x.created := by
  cases t with
  | handler y =>
    obtain ⟨⟨σ', p⟩, hn, hσ⟩ := Option.map_eq_some_iff.1 h
    obtain rfl : σ' = .acquire d := hσ
    obtain ⟨rfl, -⟩ := (HandlerPc.next_step hn).device rfl
    refine Nat.lt_of_not_le fun hle => ?_
    rw [hsh.handler y hle] at hn
    cases hn
  | sender y =>
    obtain ⟨⟨σ', p⟩, hn, hσ⟩ := Option.map_eq_some_iff.1 h
    obtain rfl : σ' = .acquire d := hσ
    obtain ⟨rfl, -⟩ := (SenderPc.next_step hn e).device rfl
    refine Nat.lt_of_not_le fun hle => ?_
    rw [(hsh.absent hle).1] at hn
    cases hn
  | receiver y =>
    obtain ⟨⟨σ', p⟩, hn, hσ⟩ := Option.map_eq_some_iff.1 h
    obtain rfl : σ' = .acquire d := hσ
    have hown : y < x.created := by
      refine hsh.lt_created fun habs => ?_
      rw [habs] at hn
      cases hn
    rcases (ReceiverPc.next_step hn).device rfl with ⟨rfl, -⟩ | hcur | ⟨-, m, todo, current, hp, hmem⟩
    · exact hown
    · refine lt_created_of_refs hsh hk (t := .receiver y) ?_
      have hpos := List.count_pos_iff.2 hcur
      simp only [Server.refs]
      omega
    · exact ((hli _ d (hco y m todo current hp hmem)).two_refs hsh).1

/-- **What a thread accesses of a device**: it has a reference to it, or acquires it, or finds it in
the registry. -/
theorem Server.Accesses.cases (h : x.Accesses C e t l i) (hl : l.device = some d) :
    0 < x.refs d t ∨ x.statement C e t = some (.acquire d) ∧ l = .memoryPointers d ∨
      ∃ n, d ∈ x.networkDevices n := by
  obtain ⟨-, ⟨hr, -⟩ | ⟨σ, hσ, ha⟩⟩ := h
  · exact .inl (hr.refs hl)
  · rcases ha.device hl with hd | hn
    · rcases x.statement_device hσ hd with href | rfl
      · exact .inl href
      · cases ha
        cases hl
        exact .inr (.inl ⟨hσ, rfl⟩)
    · exact .inr (.inr hn)

theorem Server.Accesses.lt_created (h : x.Accesses C e t l i) (hl : l.device = some d) (hi : Invariants x) :
    d < x.created := by
  rcases h.cases hl with href | ⟨hσ, -⟩ | ⟨n, hn⟩
  · exact lt_created_of_refs hi.shape hi.known href
  · exact Server.acquire_lt_created hi.shape hi.known hi.listed hi.copying hσ
  · exact ((hi.listed n d hn).two_refs hi.shape).1

/-- The threads that can have a reference to a device. -/
def Server.holders (x : Server) (d : ℕ) : Finset Thread :=
  insert (.handler d) (insert (.sender d) ((Finset.range x.created).image .receiver))

theorem references_eq_sum (x : Server) (d : ℕ) : x.references d = ∑ t ∈ x.holders d, x.refs d t := by
  have hinj : Set.InjOn Thread.receiver (Finset.range x.created : Set ℕ) := fun y _ z _ h => by cases h; rfl
  unfold Server.holders Server.references
  rw [Finset.sum_insert (by simp), Finset.sum_insert (by simp), Finset.sum_image hinj, Nat.add_assoc]

theorem mem_holders (hsh : Shape x) (h : 0 < x.refs d t) : t ∈ x.holders d := by
  unfold Server.holders
  cases t with
  | handler y =>
    have hy : y = d := by
      by_contra hne
      simp [Server.refs, hne] at h
    simp [hy]
  | sender y =>
    have hy : y = d := by
      by_contra hne
      simp [Server.refs, hne] at h
    simp [hy]
  | receiver y =>
    have hy : y < x.created := by
      refine hsh.lt_created fun habs => ?_
      have hst := fits_absent (by rw [← habs]; exact hsh.fits y)
      simp [Server.refs, habs, hst, ReceiverPc.ownRefs, ReceiverPc.holds, ReceiverPc.current] at h
    simp [hy]

/-- **The references of two threads** are among those of the device. -/
theorem refs_add_le (hsh : Shape x) (htu : t ≠ u) (ht : 0 < x.refs d t) (hu : 0 < x.refs d u) :
    x.refs d t + x.refs d u ≤ x.references d := by
  rw [references_eq_sum]
  exact Finset.add_le_sum (fun _ _ => Nat.zero_le _) (mem_holders hsh ht) (mem_holders hsh hu) htu

theorem refs_le (hsh : Shape x) (ht : 0 < x.refs d t) : x.refs d t ≤ x.references d := by
  rw [references_eq_sum]
  exact Finset.single_le_sum (fun _ _ => Nat.zero_le _) (mem_holders hsh ht)

/-! ## Every access respects the discipline -/

theorem HandlerPc.itmes_of_accesses {data : DeviceData} {y : ℕ} {p p' : HandlerPc}
    {digest : List UInt8} (hn : p.next C y data digest e = some (σ, p')) (ha : p.Reads y l ∨ σ.Accesses x l i)
    (hg : l.guard = .mutex (.itmes d)) : p.itmes y = some d := by
  rcases ha with hr | ha
  · cases p <;> simp only [HandlerPc.Reads] at hr <;> subst hr <;> cases hg
    rfl
  · have hstep := HandlerPc.next_step hn
    cases ha <;> cases hg <;> cases hstep <;> rfl

theorem SenderPc.itmes_of_accesses {data : DeviceData} {y : ℕ} {p p' : SenderPc}
    (hn : p.next y data = some (σ, p')) (ha : p.Reads y l ∨ σ.Accesses x l i)
    (hg : l.guard = .mutex (.itmes d)) : p.itmes y = some d := by
  rcases ha with hr | ha
  · cases p <;> simp only [SenderPc.Reads] at hr <;> subst hr <;> cases hg
    rfl
  · have hstep := SenderPc.next_step hn {}
    cases ha <;> cases hg <;> cases hstep <;> rfl

theorem ReceiverPc.itmes_of_accesses {data : DeviceData} {network : UInt32 → Finset ℕ} {y : ℕ} {p p' : ReceiverPc}
    {digest : List UInt8} (hn : p.next C y data network digest e = some (σ, p')) (ha : p.Reads y l ∨ σ.Accesses x l i)
    (hg : l.guard = .mutex (.itmes d)) : p.itmes y e = some d := by
  rcases ha with hr | ha
  · cases p <;> simp only [ReceiverPc.Reads] at hr <;> subst hr <;> cases hg <;> rfl
  · have hstep := ReceiverPc.next_step hn
    cases ha <;> cases hg <;> cases hstep
    case acquire.refl.castPick hr =>
      -- the device is the one that the iteration comes to
      simp only [ReceiverPc.next] at hn
      split at hn
      · cases hn
      · split at hn
        · rename_i hmem
          cases hn
          exact if_pos hmem
        · cases hn
    all_goals rfl

/-- A step of a thread is the effect of its statement. -/
theorem Server.step_statement (h : x.step C (t.action e) = some x') :
    ∃ σ, x.statement C e t = some σ ∧ x.Effect t σ x' := by
  cases t <;> obtain ⟨⟨σ, p⟩, hn, h⟩ := Option.bind_eq_some_iff.1 h <;>
    obtain ⟨x₁, he, rfl⟩ := Option.map_eq_some_iff.1 h <;> obtain ⟨he, -⟩ := Server.exec_effect he <;>
    exact ⟨σ, by simp only [Server.statement, hn]; rfl, he.ready, he.device, he.networkDevices, he.networkMutex,
      he.digest, he.openFds, he.connected, he.created⟩

/-- **What an `itmes_mutex` protects** is accessed in a section under it. -/
theorem Server.Accesses.itmes (h : x.Accesses C e t l i) (hg : l.guard = .mutex (.itmes d)) :
    x.itmes e t = some d := by
  obtain ⟨hstep, ha⟩ := h
  obtain ⟨x', hstep⟩ := Option.isSome_iff_exists.1 hstep
  obtain ⟨σ, hσ, -⟩ := Server.step_statement hstep
  have ha : x.Reads l t ∨ σ.Accesses x l i := by
    rcases ha with ⟨hr, -⟩ | ⟨σ', hσ', ha⟩
    · exact .inl hr
    · rw [hσ] at hσ'
      cases hσ'
      exact .inr ha
  cases t with
  | handler y =>
    obtain ⟨⟨σ', p⟩, hn, rfl⟩ := Option.map_eq_some_iff.1 hσ
    exact HandlerPc.itmes_of_accesses hn ha hg
  | sender y =>
    obtain ⟨⟨σ', p⟩, hn, rfl⟩ := Option.map_eq_some_iff.1 hσ
    exact SenderPc.itmes_of_accesses hn ha hg
  | receiver y =>
    obtain ⟨⟨σ', p⟩, hn, rfl⟩ := Option.map_eq_some_iff.1 hσ
    exact ReceiverPc.itmes_of_accesses hn ha hg

/-- **What a thread reads at its program counter**: a buffer under its mutex, the registry under its
mutex or at the lock, and no identifier. -/
theorem Server.Reads.spec (h : x.Reads l t) :
    (∀ d, l = .sendingBuffer d → x.buffer t = some d) ∧
      (l = .networkDevices → x.inNetwork t = true ∨ ∃ y m, t = .receiver y ∧ x.receiver y = .castLock m) ∧
      (∀ d, l ≠ .networkId d) ∧ l ≠ .connectedDevices := by
  cases t with
  | handler y =>
    have h : (x.handler y).Reads y l := h
    cases hp : x.handler y <;> rw [hp] at h <;> simp only [HandlerPc.Reads] at h <;> subst h <;> simp
  | sender y =>
    have h : (x.sender y).Reads y l := h
    cases hp : x.sender y <;> rw [hp] at h <;> simp only [SenderPc.Reads] at h <;> subst h <;>
      simp [Server.buffer, hp, SenderPc.inBuffer]
  | receiver y =>
    have h : (x.receiver y).Reads y l := h
    cases hp : x.receiver y <;> rw [hp] at h <;> simp only [ReceiverPc.Reads] at h <;> subst h <;>
      simp [Server.inNetwork, hp, ReceiverPc.inNetwork]

/-- What a `new_message_mutex` protects is accessed by its holder. -/
theorem Server.Accesses.buffer (h : x.Accesses C e t (.sendingBuffer d) i) (hsh : Shape x) : x.buffer t = some d := by
  obtain ⟨-, ⟨hr, -⟩ | ⟨σ, hσ, ha⟩⟩ := h
  · exact hr.spec.1 d rfl
  · obtain ⟨b, hb⟩ := (Server.statement_spec hsh hσ).1
    cases ha <;> exact hb.1

/-- The registry is accessed by the holder of its mutex, or by a broadcast that takes it. -/
theorem Server.Accesses.network (h : x.Accesses C e t .networkDevices i) (hsh : Shape x) :
    x.inNetwork t = true ∨ i = .read ∧ x.networkMutex = none := by
  obtain ⟨hstep, ⟨hr, rfl⟩ | ⟨σ, hσ, ha⟩⟩ := h
  · rcases hr.spec.2.1 rfl with hin | ⟨y, m, rfl, hp⟩
    · exact .inl hin
    · -- at the lock, which it can pass
      have hlock : (x.statement C e (.receiver y)).bind Stmt.locks = some .network := by
        simp [Server.statement, hp, ReceiverPc.next, Stmt.locks]
      exact .inr ⟨rfl, ((Server.step_locks hlock).1 hstep).1 rfl⟩
  · obtain ⟨n, hn⟩ := (Server.statement_spec hsh hσ).2.1
    cases ha <;> exact .inl hn.1

/-- The identifier of a network is accessed by the receiver of its device. -/
theorem Server.Accesses.owner (h : x.Accesses C e t (.networkId d) i) : t = .receiver d := by
  obtain ⟨-, ⟨hr, -⟩ | ⟨σ, hσ, ha⟩⟩ := h
  · exact absurd rfl (hr.spec.2.2.1 d)
  · cases t with
    | handler y =>
      obtain ⟨⟨σ', p⟩, hn, rfl⟩ := Option.map_eq_some_iff.1 hσ
      have hstep := HandlerPc.next_step hn
      generalize x.handler y = pc at hstep
      cases ha <;> cases hstep
    | sender y =>
      obtain ⟨⟨σ', p⟩, hn, rfl⟩ := Option.map_eq_some_iff.1 hσ
      have hstep := SenderPc.next_step hn e
      generalize x.sender y = pc at hstep
      cases ha <;> cases hstep
    | receiver y =>
      obtain ⟨⟨σ', p⟩, hn, rfl⟩ := Option.map_eq_some_iff.1 hσ
      have hstep := ReceiverPc.next_step hn
      generalize x.receiver y = pc at hstep
      cases ha <;> cases hstep <;> rfl

/-- A descriptor is only read, and the list of the connections is not accessed. -/
theorem Server.Accesses.reads (h : x.Accesses C e t l i) :
    (∀ d, l = .sockfd d → i = .read) ∧ l ≠ .connectedDevices := by
  obtain ⟨-, ⟨hr, rfl⟩ | ⟨σ, -, ha⟩⟩ := h
  · exact ⟨fun _ _ => rfl, hr.spec.2.2.2⟩
  · cases ha <;> simp

/-- What a party holds in the process. -/
theorem Sections.holds {p : Party} {m : Mutex} (h : Sections s) (hp : s.held p = some m) : s.Holds p m := by
  have howner := (h.mutexes m p).2 hp
  cases m <;> first | exact howner | cases howner

/-- A thread at a statement of a section holds the mutex. -/
theorem Sections.holds_itmes (h : Sections s) (hat : s.At t e) (hitmes : s.server.itmes e t = some d) :
    s.Holds (.thread t) (.itmes d) := by
  refine h.holds ?_
  unfold Locking.At at hat
  cases hph : s.phase t <;> rw [hph] at hat
  case outside =>
    rw [hat] at hitmes
    cases hitmes
  case inside d' e' =>
    obtain rfl : e' = e := hat
    have hin := h.inside t d' e' hph
    rw [hitmes] at hin
    cases hin
    simp [Locking.held, hph, Phase.held]
  case leaving => cases hat

theorem Mutexes.holds_buffer (h : Mutexes s.server) (hb : s.server.buffer t = some d) :
    s.Holds (.thread t) (.newMessage d) := by
  have howner : (s.server.device d).newMessageMutex = some t := (h.buffer d t).2 hb
  show Option.map Party.thread _ = _
  rw [howner]
  rfl

theorem Mutexes.holds_network (h : Mutexes s.server) (hn : s.server.inNetwork t = true) :
    s.Holds (.thread t) .network := by
  have howner : s.server.networkMutex = some t := (h.network () t).2 (if_pos hn)
  show Option.map Party.thread _ = _
  rw [howner]
  rfl

/-- What a thread of a connection accesses respects the discipline. -/
theorem Server.Accesses.allows (ha : s.server.Accesses C e t l i) (hat : s.At t e) (hsec : Sections s)
    (hi : Invariants s.server) : (s.guard l).Allows s.Holds (.thread t) i := by
  unfold Locking.guard
  cases hl : l.device with
  | none =>
    cases l <;> cases hl
    case connectedDevices.refl => exact absurd rfl ha.reads.2
    case networkDevices.refl =>
      rcases ha.network hi.shape with hin | ⟨rfl, hfree⟩
      · exact .inl (hi.mutexes.holds_network hin)
      · refine .inr ⟨rfl, fun u hu => ?_⟩
        have hu : Option.map Party.thread s.server.networkMutex = some u := hu
        rw [hfree] at hu
        cases hu
    case digest.refl => trivial
  | some d =>
    dsimp only
    rw [if_pos (ha.lt_created hl hi)]
    cases l <;> cases hl
    case sockfd.refl => exact ha.reads.1 d rfl
    case networkId.refl =>
      show Party.thread t = .thread (.receiver d)
      rw [ha.owner]
    case sendingBuffer.refl => exact .inl (hi.mutexes.holds_buffer (ha.buffer hi.shape))
    -- the others are accessed in sections under `itmes_mutex`
    all_goals exact .inl (hsec.holds_itmes hat (ha.itmes rfl))

/-- **Every access respects the discipline.** -/
theorem allows {p : Party} (h : (locking C).Reach s) (ha : s.Accesses C p l i) :
    (s.guard l).Allows s.Holds p i := by
  have hsec := Sections.reach h
  cases p with
  | acceptor =>
    obtain ⟨⟨fd, hpc⟩, rfl, rfl⟩ := ha
    exact .inl (hsec.holds (by simp [Locking.held, hpc, AcceptorPc.held]))
  | main =>
    rcases ha with ⟨hpc, rfl, rfl⟩ | ⟨hpc, rfl | hl⟩
    · exact .inl (hsec.holds (by simp [Locking.held, hpc, MainPc.held]))
    · exact .inl (hsec.holds (by simp [Locking.held, hpc, MainPc.held]))
    · -- the device that it constructs does not exist yet
      unfold Locking.guard
      rw [hl]
      dsimp only
      rw [if_neg (Nat.lt_irrefl _)]
      rfl
  | thread t =>
    obtain ⟨e, hat, ha⟩ := ha
    exact ha.allows hat hsec (Invariants.reach (Locking.server_reach h))

/-! ## Deletion -/

/-- A `release` is never blocked. -/
theorem Server.step_release (h : x.statement C e t = some (.release d)) : (x.step C (t.action e)).isSome := by
  cases t <;> obtain ⟨⟨σ, p⟩, hn, hσ⟩ := Option.map_eq_some_iff.1 h <;> obtain rfl : σ = .release d := hσ <;>
    simp [Server.step, Thread.action, hn, Server.exec]

/-- Who disposes of a device is about to change its count. -/
theorem Locking.Disposes.accesses {p : Party} (h : s.Disposes C p l) (hl : l.device = some d) :
    s.Accesses C p (.memoryPointers d) .write := by
  obtain ⟨t, e, d', rfl, hat, hσ, -, hd⟩ := h
  rw [hl] at hd
  cases hd
  exact ⟨e, hat, Server.step_release hσ, .inr ⟨_, hσ, .release d⟩⟩

/-- Everything but the buffer of `HMAC` is protected. -/
theorem Locking.guard_ne (s : Locking) (h : l ≠ .digest) : s.guard l ≠ .nothing := by
  unfold Locking.guard
  cases l with
  | digest => exact absurd rfl h
  | connectedDevices | networkDevices => exact nofun
  | _ => dsimp only [Location.device]; split <;> exact nofun

/-- A mutex has one holder. -/
theorem Locking.holds_unique (s : Locking) (p q : Party) (m : Mutex) (hp : s.Holds p m) (hq : s.Holds q m) : p = q :=
  Option.some.inj (hp.symm.trans hq)

/-- **Who takes the last reference is alone with the data of the device**: whoever else accessed it
would have a reference too, or find it in the registry, or stand in the section of its mutex. -/
theorem disposes_alone {p q : Party} (h : (locking C).Reach s) (hd : s.Disposes C p l) (ha : s.Accesses C q l i) :
    p = q := by
  have hi : Invariants s.server := Invariants.reach (Locking.server_reach h)
  have hdis := hd
  obtain ⟨t, e, d, rfl, hat, hσ, hlast, hl⟩ := hd
  have hmine : 0 < s.server.refs d t := by
    have hrel := (Server.statement_spec hi.shape hσ).2.2 d
    simp only [Stmt.released, if_true, Stmt.acquired] at hrel
    omega
  have hone : s.server.references d = 1 := by
    have hcount := hi.counted d
    rw [hlast] at hcount
    omega
  by_contra hne
  cases q with
  | acceptor =>
    obtain ⟨-, rfl, -⟩ := ha
    cases hl
  | main =>
    have hlt := lt_created_of_refs hi.shape hi.known hmine
    rcases ha with ⟨-, rfl, -⟩ | ⟨-, rfl | hnew⟩
    · cases hl
    · cases hl
    · rw [hl] at hnew
      cases hnew
      exact Nat.lt_irrefl _ hlt
  | thread u =>
    have htu : t ≠ u := fun he => hne (by rw [he])
    have hau := ha
    obtain ⟨e', -, ha⟩ := ha
    rcases ha.cases hl with href | ⟨-, rfl⟩ | ⟨n, hn⟩
    · have hsum := refs_add_le hi.shape htu hmine href
      omega
    · exact hne ((allows h (hdis.accesses hl)).unique s.holds_unique (s.guard_ne (l := .memoryPointers d) (by simp)) (allows h hau))
    · have htwo := ((hi.listed n d hn).two_refs hi.shape).2
      have hle := refs_le hi.shape (Nat.lt_of_lt_of_le Nat.zero_lt_two htwo)
      omega

theorem disposes_once {p q : Party} (h : (locking C).Reach s) (hp : s.Disposes C p l) (hq : s.Disposes C q l) :
    p = q := by
  obtain ⟨-, -, d, -, -, -, -, hl⟩ := id hp
  exact (allows h (hp.accesses hl)).unique s.holds_unique (s.guard_ne (l := .memoryPointers d) (by simp)) (allows h (hq.accesses hl))

/-! ## What a step changes -/

/-- **A statement changes what it is said to write.** -/
theorem Server.Effect.writes (h : x.Effect t σ x') (hne : ¬ l.Same x x') : σ.Accesses x l .write := by
  cases l with
  | connectedDevices => exact absurd h.connected hne
  | networkDevices =>
    simp only [Location.Same, h.networkDevices] at hne
    cases σ <;> simp only [Stmt.onNetwork, not_true] at hne
    case insert d => exact .insert d
    case erase d => exact .erase d
  | digest =>
    simp only [Location.Same, h.digest] at hne
    cases σ <;> simp only [Stmt.onDigest, not_true] at hne
    case hmac digest => exact .hmac digest
  | sockfd d => exact absurd (by simp only [Location.Same, h.device, onDevice_sockfd]) hne
  | networkId d | connectionState d | memoryPointers d | sendingBuffer d | lastMessageFromClient d =>
    simp only [Location.Same, h.device] at hne
    cases σ <;> simp only [Stmt.onDevice, not_true] at hne <;> split at hne <;> rename_i hd
    all_goals first
      | exact absurd rfl hne
      | (subst hd; constructor)

/-- `main` changes the list and the new record. -/
theorem CreateMove.writes {fd : ℕ} {data : DeviceData} {p : HandlerPc} (h : CreateMove x fd data p x')
    (hne : ¬ l.Same x x') : l = .connectedDevices ∨ l.device = some x.created := by
  have hother : ∀ d, l.device = some d → x'.device d ≠ x.device d → l.device = some x.created := by
    intro d hl hd
    rw [h.device] at hd
    split at hd
    · rename_i hnew
      rw [hl, hnew]
    · exact absurd rfl hd
  cases l with
  | connectedDevices => exact .inl rfl
  | networkDevices => exact absurd h.networkDevices hne
  | digest => exact absurd h.digest hne
  | sockfd d | networkId d | connectionState d | memoryPointers d | sendingBuffer d | lastMessageFromClient d =>
    exact .inr (hother d rfl fun he => hne (congrArg _ he))

theorem Locking.threadStep_writes (h : s.threadStep C t e = some s') (hne : ¬ l.Same s.server s'.server) :
    s.Accesses C (.thread t) l .write := by
  have hserver : ∀ {e : Env} {x' : Server}, s.At t e → s.server.step C (t.action e) = some x' →
      ¬ l.Same s.server x' → s.Accesses C (.thread t) l .write := by
    intro e x' hat hx hne
    obtain ⟨σ, hσ, heff⟩ := Server.step_statement hx
    exact ⟨e, hat, by rw [hx]; rfl, .inr ⟨σ, hσ, heff.writes hne⟩⟩
  have hsame : l.Same s.server s.server := by cases l <;> rfl
  unfold Locking.threadStep at h
  cases hph : s.phase t <;> simp only [hph] at h
  case outside =>
    split at h
    · split at h <;> cases h
      exact absurd hsame hne
    · rename_i hi
      obtain ⟨x', hx, rfl⟩ := Option.map_eq_some_iff.1 h
      have hat : s.At t e := by
        unfold Locking.At
        rw [hph]
        exact hi
      exact hserver hat hx hne
  case inside d e' =>
    obtain ⟨x', hx, rfl⟩ := Option.map_eq_some_iff.1 h
    have hat : s.At t e' := by
      unfold Locking.At
      rw [hph]
    exact hserver hat hx hne
  case leaving d =>
    cases h
    exact absurd hsame hne

/-- **A step changes only what its party was about to write.** -/
theorem Locking.step_writes {p : Party} {g : Given} (h : s.step C (.run p g) = some s')
    (hne : ¬ l.Same s.server s'.server) : s.Accesses C p l .write := by
  have hsame : l.Same s.server s.server := by cases l <;> rfl
  cases p with
  | acceptor =>
    have h : s.acceptorStep C g.newFd = some s' := h
    unfold Locking.acceptorStep at h
    cases hpc : s.acceptor <;> simp only [hpc] at h
    case pushFront fd =>
      obtain ⟨x', hx, rfl⟩ := Option.map_eq_some_iff.1 h
      cases Server.step_moves hx
      refine ⟨⟨fd, hpc⟩, ?_, rfl⟩
      cases l <;> first | rfl | exact absurd rfl hne
    case accept =>
      split at h <;> cases h
      exact absurd hsame hne
    case lock =>
      split at h <;> cases h
      exact absurd hsame hne
    case signal | unlock =>
      cases h
      exact absurd hsame hne
  | main =>
    have h : s.mainStep C g = some s' := h
    unfold Locking.mainStep at h
    cases hpc : s.main <;> simp only [hpc] at h
    case create =>
      split at h
      · cases h
        exact absurd hsame hne
      · obtain ⟨x', hx, rfl⟩ := Option.map_eq_some_iff.1 h
        cases Server.step_moves hx with
        | create fd launched networkId last hm => exact .inr ⟨hpc, hm.writes hne⟩
    case lock | woken | test =>
      split at h <;> cases h
      all_goals exact absurd hsame hne
    case waiting => cases h
    case unlock =>
      cases h
      exact absurd hsame hne
  | thread t => exact Locking.threadStep_writes h hne

/-- **No interleaving reaches a race** on data that is protected. -/
theorem no_race (h : (locking C).Reach s) (hl : l ≠ .digest) : ¬ Race (s.Accesses C) (s.Disposes C) l :=
  not_race s.holds_unique (s.guard_ne hl) (fun _ _ ha => allows h ha) (fun _ _ _ hd ha => disposes_alone h hd ha)
    fun _ _ hp hq => disposes_once h hp hq

/-! ## The buffer of `HMAC` -/

/-- A handler that comes to its call of `HMAC` is about to write the buffer. -/
theorem Locking.accesses_digest
    (h : (((s.server.handler d).hashes {}).isSome && (s.phase (.handler d)).held.isNone) = true) :
    s.Accesses C (.thread (.handler d)) .digest .write := by
  obtain ⟨hcalls, hph⟩ := Bool.and_eq_true_iff.1 h
  have hpc : s.server.handler d = .hmac := by
    cases hp : s.server.handler d <;> rw [hp] at hcalls <;> first | rfl | cases hcalls
  have hat : s.At (.handler d) {} := by
    unfold Locking.At
    cases hp : s.phase (.handler d) <;> rw [hp] at hph
    · show (s.server.handler d).itmes d = none
      rw [hpc]
      rfl
    · cases hph
    · cases hph
  have hstatement : s.server.statement C {} (.handler d) =
      some (.hmac (digestOf C (unsignedPing ({} : Env).stack))) := by
    simp only [Server.statement, hpc]
    rfl
  refine ⟨{}, hat, ?_, .inr ⟨_, hstatement, .hmac _⟩⟩
  simp [Server.step, Thread.action, hpc, HandlerPc.next, Server.exec]

/-- Two clients connect, and their handlers come to `HMAC`. -/
def twoPings : List Move :=
  List.flatten [.replicate 5 (.run .acceptor { newFd := 4 }), .replicate 5 (.run .acceptor { newFd := 5 }),
    .replicate 4 (.run .main {}), .replicate 5 (.run (.thread (.handler 0)) {}),
    .replicate 5 (.run (.thread (.handler 1)) {})]

/-- Both are about to write its buffer. -/
theorem digest_raced (C : Crypto) : ∃ s, (locking C).Reach s ∧ Race (s.Accesses C) (s.Disposes C) .digest := by
  have hstart : (locking C).init ⟨Server.fresh, none, fun _ => none, .accept, .lock, fun _ => .outside⟩ :=
    ⟨Server.fresh_starts, rfl, rfl, rfl, rfl, rfl⟩
  have hrun : ((locking C).run ⟨Server.fresh, none, fun _ => none, .accept, .lock, fun _ => .outside⟩ twoPings).any
      (fun s => (((s.server.handler 0).hashes {}).isSome && (s.phase (.handler 0)).held.isNone) &&
        (((s.server.handler 1).hashes {}).isSome && (s.phase (.handler 1)).held.isNone)) = true := rfl
  obtain ⟨s, hr, hs⟩ := Runs.Machine.exists_reach hstart hrun
  obtain ⟨h0, h1⟩ := Bool.and_eq_true_iff.1 hs
  exact ⟨s, hr, .thread (.handler 0), .thread (.handler 1), by decide,
    .inl (Locking.accesses_digest h0), .inl ⟨.write, Locking.accesses_digest h1⟩⟩

/-- **The relay server has one data race.** The locations that one party can be about to write, or to
delete, and another to access, in a state that some interleaving reaches, are the static buffer of `HMAC`
and no other; and every step changes only the data that its party was about to write. -/
theorem data_race_iff (C : Crypto) :
    (∀ l, (∃ s, (locking C).Reach s ∧ Race (s.Accesses C) (s.Disposes C) l) ↔ l = .digest) ∧
      ∀ s p g s', Locking.step C s (.run p g) = some s' → ∀ l : Location, ¬ l.Same s.server s'.server →
        s.Accesses C p l .write := by
  refine ⟨fun l => ⟨fun ⟨s, h, hrace⟩ => ?_, ?_⟩, fun s p g s' hs l hne => Locking.step_writes hs hne⟩
  · by_contra hl
    exact no_race h hl hrace
  · rintro rfl
    exact digest_raced C

end ServerRoom.Relay
