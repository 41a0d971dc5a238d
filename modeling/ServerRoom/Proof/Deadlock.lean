import Mathlib.Data.Fintype.EquivFin
import Mathlib.Order.Fin.Basic
import ServerRoom.Proof.Lifetime
import ServerRoom.Spec.Locking

/-!
# The relay server does not deadlock

The order of the mutexes is `vector_mutex` and `network_devices_mutex` first, then
`new_message_mutex`, then `itmes_mutex`, whichever device they belong to. A thread that
holds one of them locks only later ones: under `network_devices_mutex` and
`new_message_mutex` it calls `acquire` and `release`, and under the others nothing.

* `Server.of_locks`: what a thread holds of the server's mutexes when it locks one of them.
* `Locking.runs_iff_free`: a party at a lock waits for nothing but the mutex.
* `Locking.Effect`, `Sections`: what a step does to `vector_mutex` and the `itmes_mutex`es, and
  where the threads that hold them stand.
* `ordered`, `no_deadlock`: every path respects the order, so there is no deadlock. Nothing
  has to be assumed of deleted devices: here their mutexes stay as they are.
-/

namespace ServerRoom.Relay

open Sharing

variable {C : Crypto} {s s' : Locking} {x x' : Server} {t : Thread} {σ : Stmt} {ev : Option Event} {e : Env}

/-! ## Statements that lock -/

theorem HandlerPc.Step.of_locks {d : ℕ} {st : ConnectionState} {p p' : HandlerPc} {m : Mutex}
    (h : p.Step C d st σ ev p') (hl : σ.locks = some m) : p.inBuffer = false ∧ p.itmes d = none := by
  cases h <;> simp only [Stmt.locks, reduceCtorEq] at hl
  case lock => exact ⟨rfl, rfl⟩

theorem SenderPc.Step.of_locks {d : ℕ} {data : DeviceData} {p p' : SenderPc} {m : Mutex}
    (h : p.Step d data σ ev p') (hl : σ.locks = some m) : p.inBuffer = false ∧ p.itmes d = none := by
  cases h <;> simp only [Stmt.locks, reduceCtorEq] at hl
  case lock => exact ⟨rfl, rfl⟩
  case woken => exact ⟨rfl, rfl⟩

theorem ReceiverPc.Step.of_locks {d : ℕ} {data : DeviceData} {network : UInt32 → Finset ℕ}
    {p p' : ReceiverPc} {m : Mutex} (h : p.Step C d data network σ ev p') (hl : σ.locks = some m) (e : Env) :
    p.buffer d = none ∧ p.inNetwork = false ∧ p.itmes d e = none := by
  cases h <;> simp only [Stmt.locks, reduceCtorEq] at hl <;> exact ⟨rfl, rfl, rfl⟩

/-- **A thread that locks `network_devices_mutex` or a `new_message_mutex` holds none of them**,
and is not in a section under `itmes_mutex`. -/
theorem Server.of_locks {m : Mutex} (h : (x.statement C e t).bind Stmt.locks = some m) :
    x.buffer t = none ∧ x.inNetwork t = false ∧ x.itmes e t = none := by
  obtain ⟨σ, hσ, hl⟩ := Option.bind_eq_some_iff.1 h
  cases t with
  | handler d =>
    obtain ⟨⟨σ', p⟩, hn, rfl⟩ := Option.map_eq_some_iff.1 hσ
    obtain ⟨hb, hi⟩ := (HandlerPc.next_step hn).of_locks hl
    exact ⟨if_neg (by rw [hb]; exact Bool.false_ne_true), rfl, hi⟩
  | sender d =>
    obtain ⟨⟨σ', p⟩, hn, rfl⟩ := Option.map_eq_some_iff.1 hσ
    obtain ⟨hb, hi⟩ := (SenderPc.next_step hn e).of_locks hl
    exact ⟨if_neg (by rw [hb]; exact Bool.false_ne_true), rfl, hi⟩
  | receiver d =>
    obtain ⟨⟨σ', p⟩, hn, rfl⟩ := Option.map_eq_some_iff.1 hσ
    exact (ReceiverPc.next_step hn).of_locks hl e

theorem Server.exec_locks {m : Mutex} (hl : σ.locks = some m) :
    (x.exec t σ).isSome ↔ (m = .network → x.networkMutex = none) ∧
      ∀ d, m = .newMessage d → (x.device d).newMessageMutex = none := by
  cases σ <;> simp only [Stmt.locks, reduceCtorEq, Option.some.injEq] at hl <;> subst hl
  case lockNetwork => by_cases hf : x.networkMutex = none <;> simp [Server.exec, hf]
  case lockBuffer d => by_cases hf : (x.device d).newMessageMutex = none <;> simp [Server.exec, hf]

/-- **A thread of a connection that stands at a lock can go on exactly if the mutex is free.** -/
theorem Server.step_locks {m : Mutex} (h : (x.statement C e t).bind Stmt.locks = some m) :
    (x.step C (t.action e)).isSome ↔ (m = .network → x.networkMutex = none) ∧
      ∀ d, m = .newMessage d → (x.device d).newMessageMutex = none := by
  obtain ⟨σ, hσ, hl⟩ := Option.bind_eq_some_iff.1 h
  rw [← Server.exec_locks (t := t) hl]
  cases t with
  | handler d =>
    obtain ⟨⟨σ', p⟩, hn, rfl⟩ := Option.map_eq_some_iff.1 hσ
    simp [Server.step, Thread.action, hn]
  | sender d =>
    obtain ⟨⟨σ', p⟩, hn, rfl⟩ := Option.map_eq_some_iff.1 hσ
    simp [Server.step, Thread.action, hn]
  | receiver d =>
    obtain ⟨⟨σ', p⟩, hn, rfl⟩ := Option.map_eq_some_iff.1 hσ
    simp [Server.step, Thread.action, hn]

/-! ## Sections under `itmes_mutex` -/

/-- A sender in such a section is neither created nor woken. -/
theorem onSender_itmes {d r : ℕ} {q : SenderPc} (hσ : σ = .createSender d → q = .absent)
    (hq : q.itmes d = some r) : σ.onSender d q = q := by
  cases σ <;> simp only [Stmt.onSender]
  case signal y =>
    refine if_neg fun hw => ?_
    rw [hw.2] at hq
    cases hq
  case createSender y =>
    refine if_neg fun hy => ?_
    rw [hσ (by rw [hy])] at hq
    cases hq

theorem onReceiver_itmes {d r : ℕ} {q : ReceiverPc} (hσ : σ = .createReceiver d → q = .absent)
    (hq : q.itmes d e = some r) : σ.onReceiver d q = q := by
  refine onReceiver_of_ne fun y hy hyd => ?_
  rw [hσ (by rw [hy, hyd])] at hq
  cases hq

/-- **Another thread's step does not move a thread out of its section.** -/
theorem Server.itmes_step {a : Action} {d : ℕ} (hsh : Shape x) (hm : x.Moves C a ev x')
    (ha : ∀ e, a ≠ t.action e) (h : x.itmes e t = some d) : x'.itmes e t = some d := by
  cases hm with
  | accept fd hfd => cases t <;> exact h
  | create fd launched networkId last hm =>
    cases t with
    | handler y =>
      simp only [Server.itmes, hm.handler] at h ⊢
      split
      · rename_i hy
        rw [hy, hsh.handler _ (Nat.le_refl _)] at h
        cases h
      · exact h
    | sender y => simpa only [Server.itmes, hm.sender] using h
    | receiver y => simpa only [Server.itmes, hm.receiver] using h
  | handler y e' hm =>
    cases t with
    | handler z =>
      have hz : z ≠ y := fun hzy => ha e' (by rw [hzy]; rfl)
      simpa only [Server.itmes, hm.handler, if_neg hz] using h
    | sender z =>
      have hs := onSender_itmes (hm.creates_sender hsh) h
      simpa only [Server.itmes, hm.sender, hs] using h
    | receiver z =>
      have hr := onReceiver_itmes (hm.creates_receiver hsh) h
      simpa only [Server.itmes, hm.receiver, hr] using h
  | sender y e' hm =>
    cases t with
    | handler z => simpa only [Server.itmes, hm.handler] using h
    | sender z =>
      have hz : z ≠ y := fun hzy => ha e' (by rw [hzy]; rfl)
      simpa only [Server.itmes, hm.sender, if_neg hz] using h
    | receiver z => simpa only [Server.itmes, hm.receiver] using h
  | receiver y e' hm =>
    cases t with
    | handler z => simpa only [Server.itmes, hm.handler] using h
    | sender z =>
      have hs := onSender_itmes (fun hσ => absurd hσ (hm.step.creates z)) h
      simpa only [Server.itmes, hm.sender, hs] using h
    | receiver z =>
      have hz : z ≠ y := fun hzy => ha e' (by rw [hzy]; rfl)
      simpa only [Server.itmes, hm.receiver, if_neg hz] using h
  | wake y hw =>
    cases t with
    | handler z => exact h
    | sender z =>
      simp only [Server.itmes, Function.update_apply] at h ⊢
      split
      · rename_i hz
        rw [hz, hw] at h
        cases h
      · exact h
    | receiver z => exact h

/-! ## The steps of the process -/

/-- The mutex that a party holds of those that `Spec/Server.lean` does not have. -/
def AcceptorPc.held : AcceptorPc → Option Mutex
  | .pushFront _ | .signal | .unlock => some .vector
  | _ => none

def MainPc.held : MainPc → Option Mutex
  | .test | .create | .unlock => some .vector
  | _ => none

def Phase.held : Phase → Option Mutex
  | .outside => none
  | .inside d _ | .leaving d => some (.itmes d)

def Locking.held (s : Locking) : Party → Option Mutex
  | .acceptor => s.acceptor.held
  | .main => s.main.held
  | .thread t => (s.phase t).held

/-- The owners of these mutexes. -/
def Locking.outer (s : Locking) : Mutex → Option Party
  | .vector => s.vectorMutex
  | .itmes d => s.itmesMutex d
  | _ => none

/-- The step of the server that a step of the process is, and by which of its threads. -/
def Locking.Executes (C : Crypto) (s s' : Locking) (p : Option Party) : Prop :=
  ∃ a, s.server.step C a = some s'.server ∧ ∀ t e, a = Thread.action e t → p = some (.thread t)

/-- A step of the process: what it does to the server and to the mutexes, and how a thread comes
to be in a section. `p` is the party that moves, if one does. -/
structure Locking.Effect (C : Crypto) (s : Locking) (p : Option Party) (s' : Locking) : Prop where
  server : s'.server = s.server ∨ s.Executes C s' p
  mutexes : Change s.outer s'.outer s.held s'.held
  inside : ∀ t d e, s'.phase t = .inside d e →
    s.phase t = .inside d e ∧ p ≠ some (.thread t) ∨ s'.server = s.server ∧ s.server.itmes e t = some d

/-- `p` locks `vector_mutex`. -/
theorem Locking.lock_vector {p : Party} (hfree : s.vectorMutex = none) (hp : s.held p = none)
    (hv : s'.vectorMutex = some p) (hi : s'.itmesMutex = s.itmesMutex) (hp' : s'.held p = some .vector)
    (hu : ∀ q, q ≠ p → s'.held q = s.held q) : Change s.outer s'.outer s.held s'.held := by
  refine .take .vector p hfree hp (fun m => ?_) hp' hu
  cases m <;> simp [Locking.outer, hv, hi]

/-- `p` unlocks `vector_mutex`. -/
theorem Locking.unlock_vector {p : Party} (hp : s.held p = some .vector) (hv : s'.vectorMutex = none)
    (hi : s'.itmesMutex = s.itmesMutex) (hp' : s'.held p = none)
    (hu : ∀ q, q ≠ p → s'.held q = s.held q) : Change s.outer s'.outer s.held s'.held := by
  refine .drop .vector p hp (fun m => ?_) hp' hu
  cases m <;> simp [Locking.outer, hv, hi]

/-- A step of `start_server` or of `main`: the threads of the connections stay where they are. -/
theorem Locking.Effect.of_loop {p : Party} (hp : ∀ t, p ≠ .thread t) (hph : s'.phase = s.phase)
    (hserver : s'.server = s.server ∨ s.Executes C s' (some p))
    (hm : Change s.outer s'.outer s.held s'.held) : s.Effect C (some p) s' := by
  refine ⟨hserver, hm, fun t d e ht => Or.inl ⟨?_, fun he => hp t (Option.some.inj he)⟩⟩
  rw [hph] at ht
  exact ht

theorem Locking.acceptorStep_effect {newFd : ℕ} (h : s.acceptorStep C newFd = some s') :
    s.Effect C (some .acceptor) s' := by
  have hp : ∀ t, Party.acceptor ≠ .thread t := fun t he => by cases he
  have hothers : ∀ pc v q, q ≠ Party.acceptor →
      Locking.held { s with acceptor := pc, vectorMutex := v } q = s.held q := by
    intro pc v q hq
    cases q with
    | acceptor => exact absurd rfl hq
    | main | thread => rfl
  unfold Locking.acceptorStep at h
  cases hpc : s.acceptor <;> simp only [hpc] at h
  case accept =>
    split at h <;> cases h
    refine .of_loop hp rfl (Or.inl rfl) (.same (fun _ => rfl) fun q => ?_)
    cases q <;> simp [Locking.held, hpc, AcceptorPc.held]
  case lock fd =>
    split at h <;> cases h
    rename_i hfree
    refine .of_loop hp rfl (Or.inl rfl) (lock_vector hfree ?_ rfl rfl rfl (hothers _ _))
    simp [Locking.held, hpc, AcceptorPc.held]
  case pushFront fd =>
    obtain ⟨x, hx, rfl⟩ := Option.map_eq_some_iff.1 h
    refine .of_loop hp rfl (Or.inr ⟨_, hx, ?_⟩) (.same (fun m => ?_) fun q => ?_)
    · intro t e hta; cases t <;> cases hta
    · cases m <;> rfl
    · cases q <;> simp [Locking.held, hpc, AcceptorPc.held]
  case signal =>
    cases h
    refine .of_loop hp rfl (Or.inl rfl) (.same (fun _ => rfl) fun q => ?_)
    cases q with
    | acceptor => simp [Locking.held, hpc, AcceptorPc.held]
    | main =>
      -- neither a waiting nor a woken `main` holds the mutex
      simp only [Locking.held]
      split
      · rename_i hw
        rw [hw]; rfl
      · rfl
    | thread t => rfl
  case unlock =>
    cases h
    refine .of_loop hp rfl (Or.inl rfl) (unlock_vector ?_ rfl rfl rfl (hothers _ _))
    simp [Locking.held, hpc, AcceptorPc.held]

theorem Locking.mainStep_effect {g : Given} (h : s.mainStep C g = some s') : s.Effect C (some .main) s' := by
  have hp : ∀ t, Party.main ≠ .thread t := fun t he => by cases he
  have hothers : ∀ pc v q, q ≠ Party.main →
      Locking.held { s with main := pc, vectorMutex := v } q = s.held q := by
    intro pc v q hq
    cases q with
    | main => exact absurd rfl hq
    | acceptor | thread => rfl
  have hlock : s.held .main = none → s.vectorMutex = none →
      Locking.Effect C s (some .main) { s with vectorMutex := some .main, main := .test } :=
    fun hpc hfree => .of_loop hp rfl (Or.inl rfl) (lock_vector hfree hpc rfl rfl rfl (hothers _ _))
  unfold Locking.mainStep at h
  cases hpc : s.main <;> simp only [hpc] at h
  case lock =>
    split at h <;> cases h
    rename_i hfree
    exact hlock (by simp [Locking.held, hpc, MainPc.held]) hfree
  case woken =>
    split at h <;> cases h
    rename_i hfree
    exact hlock (by simp [Locking.held, hpc, MainPc.held]) hfree
  case test =>
    split at h <;> cases h
    · refine .of_loop hp rfl (Or.inl rfl) (unlock_vector ?_ rfl rfl rfl (hothers _ _))
      simp [Locking.held, hpc, MainPc.held]
    · refine .of_loop hp rfl (Or.inl rfl) (.same (fun _ => rfl) fun q => ?_)
      cases q <;> simp [Locking.held, hpc, MainPc.held]
  case waiting => cases h
  case create =>
    split at h
    · cases h
      refine .of_loop hp rfl (Or.inl rfl) (.same (fun _ => rfl) fun q => ?_)
      cases q <;> simp [Locking.held, hpc, MainPc.held]
    · obtain ⟨x, hx, rfl⟩ := Option.map_eq_some_iff.1 h
      refine .of_loop hp rfl (Or.inr ⟨_, hx, ?_⟩) (.same (fun m => ?_) fun q => ?_)
      · intro t e hta; cases t <;> cases hta
      · cases m <;> rfl
      · cases q <;> simp [Locking.held, hpc, MainPc.held]
  case unlock =>
    cases h
    refine .of_loop hp rfl (Or.inl rfl) (unlock_vector ?_ rfl rfl rfl (hothers _ _))
    simp [Locking.held, hpc, MainPc.held]

theorem Thread.action_inj {u : Thread} {e' : Env} (h : t.action e = u.action e') : u = t := by
  cases t <;> cases u <;> cases h <;> rfl

/-- The other threads stay where they are. -/
theorem Locking.held_update {ph : Phase} {q : Party} (hq : q ≠ .thread t)
    (hp : s'.phase = Function.update s.phase t ph) (ha : s'.acceptor = s.acceptor) (hm : s'.main = s.main) :
    s'.held q = s.held q := by
  cases q with
  | acceptor => simp only [Locking.held, ha]
  | main => simp only [Locking.held, hm]
  | thread u =>
    have hu : u ≠ t := fun he => hq (by rw [he])
    simp only [Locking.held, hp, Function.update_of_ne hu]

theorem Locking.inside_update {ph : Phase} {u : Thread} {d : ℕ} (hp : s'.phase = Function.update s.phase t ph)
    (h : s'.phase u = .inside d e) :
    u = t ∧ ph = .inside d e ∨ s.phase u = .inside d e ∧ some (Party.thread t) ≠ some (.thread u) := by
  rw [hp, Function.update_apply] at h
  split at h
  · rename_i hut
    exact Or.inl ⟨hut, h⟩
  · rename_i hut
    refine Or.inr ⟨h, fun he => hut ?_⟩
    cases he; rfl

theorem Locking.threadStep_effect (h : s.threadStep C t e = some s') : s.Effect C (some (.thread t)) s' := by
  have hexec : ∀ {e : Env} {s₂ : Locking}, s.server.step C (t.action e) = some s₂.server →
      s.Executes C s₂ (some (.thread t)) := by
    intro e s₂ hx
    refine ⟨_, hx, fun u e' he => ?_⟩
    rw [Thread.action_inj he]
  unfold Locking.threadStep at h
  cases hph : s.phase t <;> simp only [hph] at h
  case outside =>
    split at h
    · -- the lock of a section
      rename_i d hd
      split at h <;> cases h
      rename_i hfree
      refine ⟨Or.inl rfl, .take (.itmes d) (.thread t) hfree ?_ (fun m => ?_) ?_ ?_, fun u d' e' hu => ?_⟩
      · simp [Locking.held, hph, Phase.held]
      · cases m <;> simp [Locking.outer, Function.update_apply, eq_comm]
      · simp [Locking.held, Phase.held]
      · exact fun q hq => held_update hq rfl rfl rfl
      · rcases inside_update rfl hu with ⟨rfl, he⟩ | hu
        · cases he; exact Or.inr ⟨rfl, hd⟩
        · exact Or.inl hu
    · -- a statement outside the sections
      obtain ⟨x, hx, rfl⟩ := Option.map_eq_some_iff.1 h
      refine ⟨Or.inr (hexec hx), .same (fun m => ?_) fun q => ?_, fun u d' e' hu => Or.inl ⟨hu, fun he => ?_⟩⟩
      · cases m <;> rfl
      · cases q <;> rfl
      · cases he
        rw [hph] at hu
        cases hu
  case inside d e' =>
    obtain ⟨x, hx, rfl⟩ := Option.map_eq_some_iff.1 h
    refine ⟨Or.inr (hexec hx), .same (fun m => ?_) fun q => ?_, fun u d' e' hu => ?_⟩
    · cases m <;> rfl
    · by_cases hq : q = .thread t
      · rw [hq]; simp [Locking.held, hph, Phase.held]
      · exact held_update hq rfl rfl rfl
    · rcases inside_update rfl hu with ⟨-, he⟩ | hu
      · cases he
      · exact Or.inl hu
  case leaving d =>
    cases h
    refine ⟨Or.inl rfl, .drop (.itmes d) (.thread t) ?_ (fun m => ?_) ?_ ?_, fun u d' e' hu => ?_⟩
    · simp [Locking.held, hph, Phase.held]
    · cases m <;> simp [Locking.outer, Function.update_apply, eq_comm]
    · simp [Locking.held, Phase.held]
    · exact fun q hq => held_update hq rfl rfl rfl
    · rcases inside_update rfl hu with ⟨-, he⟩ | hu
      · cases he
      · exact Or.inl hu

/-- **What a step of the process does.** -/
theorem Locking.step_effect {a : Move} (h : s.step C a = some s') : ∃ p, s.Effect C p s' := by
  cases a with
  | run p g =>
    cases p with
    | acceptor => exact ⟨_, acceptorStep_effect h⟩
    | main => exact ⟨_, mainStep_effect h⟩
    | thread t => exact ⟨_, threadStep_effect h⟩
  | wakeMain =>
    simp only [Locking.step] at h
    split at h <;> cases h
    rename_i hw
    refine ⟨none, Or.inl rfl, .same (fun _ => rfl) fun q => ?_, fun t d e ht => Or.inl ⟨ht, nofun⟩⟩
    cases q <;> simp [Locking.held, hw, MainPc.held]
  | wakeSender d =>
    obtain ⟨x, hx, rfl⟩ := Option.map_eq_some_iff.1 h
    refine ⟨none, Or.inr ⟨_, hx, fun t e ht => ?_⟩, .same (fun m => ?_) fun q => ?_,
      fun t d e ht => Or.inl ⟨ht, nofun⟩⟩
    · cases t <;> cases ht
    · cases m <;> rfl
    · cases q <;> rfl

/-- **The server in the process runs as it does alone.** -/
theorem Locking.server_reach (h : (locking C).Reach s) : (relay C).Reach s.server := by
  refine h.induct (I := fun s => (relay C).Reach s.server) (fun s hi => ?_) fun s a s' _ hr _ hs => ?_
  · have hstarts : s.Starts := hi
    exact .init (M := relay C) hstarts.server
  · obtain ⟨p, he⟩ := Locking.step_effect (C := C) hs
    rcases he.server with heq | ⟨a, ha, -⟩
    · rw [heq]; exact hr
    · exact .step a hr trivial ha

/-- The mutexes of the server that a party stands at are those that its step needs. -/
theorem Locking.owner_none {m : Mutex} (hl : σ.locks = some m) :
    s.owner m = none ↔ (m = .network → s.server.networkMutex = none) ∧
      ∀ d, m = .newMessage d → (s.server.device d).newMessageMutex = none := by
  cases σ <;> simp only [Stmt.locks, reduceCtorEq, Option.some.injEq] at hl <;> subst hl <;> simp [Locking.owner]

/-- **A party that stands at the lock of a mutex can go on exactly if the mutex is free.** -/
theorem Locking.runs_iff_free {p : Party} {g : Given} {m : Mutex} (h : s.locks C g.toEnv p = some m) :
    (s.step C (.run p g)).isSome ↔ s.owner m = none := by
  cases p with
  | acceptor =>
    simp only [Locking.locks] at h
    cases hpc : s.acceptor <;> simp only [hpc, reduceCtorEq, Option.some.injEq] at h
    subst h
    by_cases hf : s.vectorMutex = none <;> simp [Locking.step, Locking.acceptorStep, Locking.owner, hpc, hf]
  | main =>
    simp only [Locking.locks] at h
    cases hpc : s.main <;> simp only [hpc, reduceCtorEq, Option.some.injEq] at h <;> subst h <;>
      by_cases hf : s.vectorMutex = none <;> simp [Locking.step, Locking.mainStep, Locking.owner, hpc, hf]
  | thread t =>
    have hserver : ∀ e, (s.server.statement C e t).bind Stmt.locks = some m →
        ((s.server.step C (t.action e)).isSome ↔ s.owner m = none) := by
      intro e he
      obtain ⟨σ, -, hl⟩ := Option.bind_eq_some_iff.1 he
      rw [Server.step_locks he, Locking.owner_none hl]
    simp only [Locking.locks] at h
    simp only [Locking.step, Locking.threadStep]
    cases hph : s.phase t <;> simp only [hph] at h
    case outside =>
      split at h
      · cases h
        rename_i d hd
        by_cases hf : s.itmesMutex d = none <;> simp [Locking.owner, hf]
      · rename_i hd
        simpa [hd] using hserver g.toEnv h
    case inside d e => simpa using hserver e h
    case leaving d => cases h

/-! ## Who holds which mutex -/

/-- Where the parties stand that hold `vector_mutex` or an `itmes_mutex`: a thread that is inside
a section is about to execute the statement that the section protects. -/
structure Sections (s : Locking) : Prop where
  mutexes : Agree s.outer s.held
  inside : ∀ t d e, s.phase t = .inside d e → s.server.itmes e t = some d

theorem Sections.starts (h : s.Starts) : Sections s where
  mutexes m p := by
    cases m <;> cases p <;> simp [Locking.outer, Locking.held, h.vectorMutex, h.itmesMutex, h.acceptor,
      h.main, h.phase, AcceptorPc.held, MainPc.held, Phase.held]
  inside t d e ht := by rw [h.phase] at ht; cases ht

theorem Sections.step {p : Option Party} (h : Sections s) (hsh : Shape s.server) (he : s.Effect C p s') :
    Sections s' := by
  refine ⟨h.mutexes.change he.mutexes, fun t d e ht => ?_⟩
  rcases he.inside t d e ht with ⟨ht, hp⟩ | ⟨hs, hi⟩
  · -- it was inside before, and it is not the one that moves
    have hi := h.inside t d e ht
    rcases he.server with hs | ⟨a, ha, hmover⟩
    · rw [hs]; exact hi
    · exact Server.itmes_step hsh (Server.step_moves ha) (fun e' hae => hp (hmover t e' hae)) hi
  · rw [hs]; exact hi

theorem Sections.reach (h : (locking C).Reach s) : Sections s := by
  refine h.induct (fun s => Sections.starts) fun s a s' hr hi _ hs => ?_
  obtain ⟨p, he⟩ := Locking.step_effect (C := C) hs
  exact hi.step (Shape.reach (Locking.server_reach hr)) he

/-- A party that stands at a lock holds neither `vector_mutex` nor an `itmes_mutex`, and
unless it stands at an `itmes_mutex`, it holds nothing else either. -/
theorem Sections.of_locks {p : Party} {m : Mutex} (h : Sections s) (hl : s.locks C e p = some m) :
    s.held p = none ∧ ∀ t, p = .thread t →
      (∃ d, m = .itmes d) ∨ s.server.buffer t = none ∧ s.server.inNetwork t = false := by
  cases p with
  | acceptor =>
    refine ⟨?_, fun t ht => by cases ht⟩
    simp only [Locking.locks] at hl
    cases hpc : s.acceptor <;> simp only [hpc, reduceCtorEq] at hl
    simp [Locking.held, hpc, AcceptorPc.held]
  | main =>
    refine ⟨?_, fun t ht => by cases ht⟩
    simp only [Locking.locks] at hl
    cases hpc : s.main <;> simp only [hpc, reduceCtorEq] at hl <;> simp [Locking.held, hpc, MainPc.held]
  | thread t =>
    simp only [Locking.locks] at hl
    cases hph : s.phase t <;> simp only [hph] at hl
    case outside =>
      refine ⟨by simp [Locking.held, hph, Phase.held], fun u hu => ?_⟩
      cases hu
      split at hl
      · rename_i d hd
        cases hl
        exact Or.inl ⟨d, rfl⟩
      · obtain ⟨hb, hn, -⟩ := Server.of_locks hl
        exact Or.inr ⟨hb, hn⟩
    case inside d e' =>
      -- the statement of a section does not lock
      obtain ⟨-, -, hi⟩ := Server.of_locks hl
      rw [h.inside t d e' hph] at hi
      cases hi
    case leaving d => cases hl

/-! ## The order of the mutexes -/

/-- The rank of a mutex, whatever its device. -/
def Mutex.rank : Mutex → Fin 3
  | .vector | .network => 0
  | .newMessage _ => 1
  | .itmes _ => 2

theorem Mutex.rank_network (d : ℕ) : Mutex.network.rank < (Mutex.itmes d).rank := by
  change (0 : Fin 3) < 2
  decide

theorem Mutex.rank_newMessage (d d' : ℕ) : (Mutex.newMessage d).rank < (Mutex.itmes d').rank := by
  change (1 : Fin 3) < 2
  decide

/-- **Every path respects the order.** -/
theorem ordered (h : (locking C).Reach s) : LockOrder.Ordered Mutex.rank (s.Wants C) s.Holds := by
  have hsec := Sections.reach h
  have hmx := Mutexes.reach (Locking.server_reach h)
  rintro p m m' hh ⟨e, hw⟩
  obtain ⟨hout, hin⟩ := hsec.of_locks hw
  have houter : s.outer m ≠ some p := fun ho => by
    have hheld := (hsec.mutexes m p).1 ho
    rw [hout] at hheld
    cases hheld
  unfold Locking.Holds at hh
  cases m with
  | vector => exact absurd hh houter
  | itmes d => exact absurd hh houter
  | network =>
    obtain ⟨t, ht, rfl⟩ := Option.map_eq_some_iff.1 hh
    rcases hin t rfl with ⟨d, rfl⟩ | ⟨-, hn⟩
    · exact Mutex.rank_network d
    · -- it would not hold `network_devices_mutex`
      have hown := (hmx.network () t).1 ht
      simp [hn] at hown
  | newMessage d =>
    obtain ⟨t, ht, rfl⟩ := Option.map_eq_some_iff.1 hh
    rcases hin t rfl with ⟨d', rfl⟩ | ⟨hb, -⟩
    · exact Mutex.rank_newMessage d d'
    · have hown := (hmx.buffer d t).1 ht
      rw [hb] at hown
      cases hown

/-- **The relay server cannot deadlock on its mutexes.** In no state that any interleaving of its
threads reaches is there a non-empty set of threads each of which stands at the lock of a mutex
that a thread of the set holds. -/
theorem no_deadlock (C : Crypto) {s : Locking} (h : (locking C).Reach s) (S : Set Party) : ¬ s.Deadlock C S :=
  (ordered h).not_deadlock S

/-- A client connects; its handler locks `new_message_mutex`, and its sender comes to the
same lock. -/
def contention : List Move :=
  List.flatten [.replicate 5 (.run .acceptor { newFd := 4 }), .replicate 3 (.run .main {}),
    .replicate 8 (.run (.thread (.handler 0)) {}), .replicate 3 (.run (.thread (.sender 0)) {})]

theorem no_deadlock_contention : ∃ s, (locking Crypto.zero).Reach s ∧
    (s.Wants Crypto.zero (.thread (.sender 0)) (.newMessage 0) ∧ s.Holds (.thread (.handler 0)) (.newMessage 0)) ∧
      ∀ S, ¬ s.Deadlock Crypto.zero S := by
  have hstart : (locking Crypto.zero).init ⟨Server.fresh, none, fun _ => none, .accept, .lock, fun _ => .outside⟩ :=
    ⟨Server.fresh_starts, rfl, rfl, rfl, rfl, rfl⟩
  have hrun : ((locking Crypto.zero).run ⟨Server.fresh, none, fun _ => none, .accept, .lock, fun _ => .outside⟩
      contention).any (fun s => s.locks Crypto.zero {} (.thread (.sender 0)) = some (.newMessage 0) ∧
        s.owner (.newMessage 0) = some (.thread (.handler 0))) = true := by
    decide +kernel
  obtain ⟨s, hr, hs⟩ := Runs.Machine.exists_reach hstart hrun
  obtain ⟨hw, hh⟩ := of_decide_eq_true hs
  exact ⟨s, hr, ⟨⟨{}, hw⟩, hh⟩, fun S => no_deadlock Crypto.zero hr S⟩

end ServerRoom.Relay
