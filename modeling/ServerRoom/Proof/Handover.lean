import ServerRoom.Lib.Progress
import ServerRoom.Proof.Deadlock

/-!
# How accepted connections come to `main`

`start_server` puts the descriptors that it accepts into a list, and `main` takes them out and makes
devices of them. `Pipe` is what this is about: where the two stand, the list, and the descriptors of
the devices. Every step of the process is a step of the pipe, or leaves it alone (`pipe_step`).

* `handover`: no accepted connection is lost or handled twice, and `main` does not sleep while a
  connection is in the list, unless the signal that wakes it is about to come.
* `handover_bounded`: when no more connections come, the two need a bounded number of steps to
  hand over those that are there, in whatever order they take them, and can always take one of them.
-/

namespace ServerRoom.Relay

variable {C : Crypto} {s s' : Locking} {x x' : Server} {a : Move}

/-! ## The pipe -/

/-- Where the two loops stand, the descriptors in the list, and those of the devices. -/
structure Pipe where
  acceptor : AcceptorPc
  main : MainPc
  connected : List ℕ
  handled : List ℕ

/-- The descriptors of the devices, in the order in which `main` made them. -/
def Server.handled (x : Server) : List ℕ := (List.range x.created).map fun d => (x.device d).sockfd

def Locking.pipe (s : Locking) : Pipe := ⟨s.acceptor, s.main, s.server.connected, s.server.handled⟩

/-- The descriptor that `accept` returns in a step. -/
def Locking.accepted (s : Locking) : Move → Option ℕ
  | .run .acceptor g => if s.acceptor = .accept then some g.newFd else none
  | _ => none

/-- A step of one of the two loops. -/
def Move.turns : Move → Bool
  | .run .acceptor _ | .run .main _ => true
  | _ => false

/-- **The steps of the pipe**, with whether one of the two loops takes them, and what is accepted. -/
inductive Pipe.Step : Bool → Option ℕ → Pipe → Pipe → Prop
  | accept (fd : ℕ) (m : MainPc) (c h : List ℕ) : Step true (some fd) ⟨.accept, m, c, h⟩ ⟨.lock fd, m, c, h⟩
  | lock (fd : ℕ) (m : MainPc) (c h : List ℕ) : Step true none ⟨.lock fd, m, c, h⟩ ⟨.pushFront fd, m, c, h⟩
  | pushFront (fd : ℕ) (m : MainPc) (c h : List ℕ) :
      Step true none ⟨.pushFront fd, m, c, h⟩ ⟨.signal, m, fd :: c, h⟩
  | signal (m : MainPc) (c h : List ℕ) :
      Step true none ⟨.signal, m, c, h⟩ ⟨.unlock, if m = .waiting then .woken else m, c, h⟩
  | unlock (m : MainPc) (c h : List ℕ) : Step true none ⟨.unlock, m, c, h⟩ ⟨.accept, m, c, h⟩
  | take (p : AcceptorPc) {m : MainPc} (c h : List ℕ) : m = .lock ∨ m = .woken →
      Step true none ⟨p, m, c, h⟩ ⟨p, .test, c, h⟩
  | wait (p : AcceptorPc) (h : List ℕ) : Step true none ⟨p, .test, [], h⟩ ⟨p, .waiting, [], h⟩
  | begin (p : AcceptorPc) {c : List ℕ} (h : List ℕ) : c ≠ [] → Step true none ⟨p, .test, c, h⟩ ⟨p, .create, c, h⟩
  | create (p : AcceptorPc) (fd : ℕ) (c h : List ℕ) :
      Step true none ⟨p, .create, fd :: c, h⟩ ⟨p, .create, c, h ++ [fd]⟩
  | created (p : AcceptorPc) (h : List ℕ) : Step true none ⟨p, .create, [], h⟩ ⟨p, .unlock, [], h⟩
  | give (p : AcceptorPc) (c h : List ℕ) : Step true none ⟨p, .unlock, c, h⟩ ⟨p, .lock, c, h⟩
  | wake (p : AcceptorPc) (c h : List ℕ) : Step false none ⟨p, .waiting, c, h⟩ ⟨p, .woken, c, h⟩
  | rest (q : Pipe) : Step false none q q

theorem CreateMove.handled {fd : ℕ} {data : DeviceData} {p : HandlerPc} (h : CreateMove x fd data p x')
    (hfd : data.sockfd = fd) : x'.handled = x.handled ++ [fd] := by
  have hold : ∀ d ∈ List.range x.created, (x'.device d).sockfd = (x.device d).sockfd := by
    intro d hd
    rw [h.device, if_neg (Nat.ne_of_lt (List.mem_range.1 hd))]
  unfold Server.handled
  rw [h.created, List.range_succ, List.map_append, List.map_congr_left hold, List.map_singleton, h.device,
    if_pos rfl, hfd]

/-- A step of a thread of a connection, and a wake-up of a sender, leave the pipe alone. -/
theorem Server.step_pipe {b : Action} (h : x.step C b = some x') (hb : ∀ fd, b ≠ .accept fd)
    (hc : ∀ launched n last, b ≠ .create launched n last) :
    x'.connected = x.connected ∧ x'.handled = x.handled ∧ x'.openFds ⊆ x.openFds := by
  have heff : ∀ {t σ}, x.Effect t σ x' →
      x'.connected = x.connected ∧ x'.handled = x.handled ∧ x'.openFds ⊆ x.openFds := by
    intro t σ h
    refine ⟨h.connected, ?_, ?_⟩
    · unfold Server.handled
      rw [h.created]
      exact List.map_congr_left fun d _ => by rw [h.device, onDevice_sockfd]
    · rw [h.openFds]
      cases σ <;> simp only [Stmt.onFds, Finset.Subset.refl]
      split
      · exact Finset.erase_subset _ _
      · exact Finset.Subset.refl _
  cases Server.step_moves h with
  | accept fd hfd => exact absurd rfl (hb fd)
  | create fd launched networkId last hm => exact absurd rfl (hc _ _ _)
  | handler d e hm => exact heff hm.toEffect
  | sender d e hm => exact heff hm.toEffect
  | receiver d e hm => exact heff hm.toEffect
  | wake d hw => exact ⟨rfl, rfl, Finset.Subset.refl _⟩

theorem Locking.acceptorStep_pipe {g : Given} (h : s.acceptorStep C g.newFd = some s') :
    Pipe.Step true (s.accepted (.run .acceptor g)) s.pipe s'.pipe := by
  unfold Locking.acceptorStep at h
  cases hpc : s.acceptor <;> simp only [hpc] at h
  case accept =>
    have hacc : s.accepted (.run .acceptor g) = some g.newFd := if_pos hpc
    split at h <;> cases h
    rw [hacc, Locking.pipe, hpc]
    exact .accept g.newFd _ _ _
  all_goals
    have hacc : s.accepted (.run .acceptor g) = none := if_neg (by rw [hpc]; exact AcceptorPc.noConfusion)
    rw [hacc, Locking.pipe, hpc]
  case lock fd =>
    split at h <;> cases h
    exact .lock fd _ _ _
  case pushFront fd =>
    obtain ⟨x', hx, rfl⟩ := Option.map_eq_some_iff.1 h
    cases Server.step_moves hx
    exact .pushFront fd _ _ _
  case signal =>
    cases h
    exact .signal _ _ _
  case unlock =>
    cases h
    exact .unlock _ _ _

theorem Locking.mainStep_pipe {g : Given} (h : s.mainStep C g = some s') : Pipe.Step true none s.pipe s'.pipe := by
  unfold Locking.mainStep at h
  cases hpc : s.main <;> simp only [hpc] at h
  all_goals rw [Locking.pipe, hpc]
  case lock =>
    split at h <;> cases h
    exact .take _ _ _ (.inl rfl)
  case woken =>
    split at h <;> cases h
    exact .take _ _ _ (.inr rfl)
  case test =>
    split at h <;> cases h
    · rename_i hc
      rw [Locking.pipe, hc]
      exact .wait _ _
    · rename_i hc
      exact .begin _ _ hc
  case waiting => cases h
  case create =>
    split at h
    · rename_i hc
      cases h
      rw [Locking.pipe, hc]
      exact .created _ _
    · obtain ⟨x', hx, rfl⟩ := Option.map_eq_some_iff.1 h
      cases Server.step_moves hx with
      | create fd launched networkId last hm =>
        rw [hm.connected, Locking.pipe, hm.handled rfl]
        exact .create _ fd _ _
  case unlock =>
    cases h
    exact .give _ _ _

theorem Locking.threadStep_pipe {t : Thread} {e : Env} (h : s.threadStep C t e = some s') :
    s'.pipe = s.pipe ∧ s'.server.openFds ⊆ s.server.openFds := by
  have hserver : ∀ {e x'}, s.server.step C (t.action e) = some x' → s'.server = x' → s'.acceptor = s.acceptor →
      s'.main = s.main → s'.pipe = s.pipe ∧ s'.server.openFds ⊆ s.server.openFds := by
    intro e x' hx hs ha hm
    obtain ⟨h1, h2, h3⟩ := Server.step_pipe hx (fun fd he => by cases t <;> cases he)
      fun launched n last he => by cases t <;> cases he
    unfold Locking.pipe
    rw [hs, ha, hm, h1, h2]
    exact ⟨rfl, h3⟩
  unfold Locking.threadStep at h
  cases hph : s.phase t <;> simp only [hph] at h
  case outside =>
    split at h
    · split at h <;> cases h
      exact ⟨rfl, Finset.Subset.refl _⟩
    · obtain ⟨x', hx, rfl⟩ := Option.map_eq_some_iff.1 h
      exact hserver hx rfl rfl rfl
  case inside d e' =>
    obtain ⟨x', hx, rfl⟩ := Option.map_eq_some_iff.1 h
    exact hserver hx rfl rfl rfl
  case leaving d =>
    cases h
    exact ⟨rfl, Finset.Subset.refl _⟩

theorem Locking.wakeSender_pipe {d : ℕ} (h : s.step C (.wakeSender d) = some s') : s'.pipe = s.pipe := by
  obtain ⟨x', hx, rfl⟩ := Option.map_eq_some_iff.1 h
  obtain ⟨h1, h2, -⟩ := Server.step_pipe hx (fun fd he => by cases he) fun launched n last he => by cases he
  unfold Locking.pipe
  rw [h1, h2]

/-- **Every step of the process is a step of the pipe.** -/
theorem Locking.pipe_step (h : s.step C a = some s') : Pipe.Step a.turns (s.accepted a) s.pipe s'.pipe := by
  cases a with
  | run p g =>
    cases p with
    | acceptor => exact Locking.acceptorStep_pipe h
    | main => exact Locking.mainStep_pipe h
    | thread t =>
      rw [(Locking.threadStep_pipe h).1]
      exact .rest _
  | wakeMain =>
    simp only [Locking.step] at h
    split at h <;> cases h
    rename_i hw
    rw [Locking.pipe, hw]
    exact .wake _ _ _
  | wakeSender d =>
    rw [Locking.wakeSender_pipe h]
    exact .rest _

/-! ## Nothing is lost -/

/-- The descriptor that `start_server` is about to put into the list. -/
def AcceptorPc.pending : AcceptorPc → List ℕ
  | .lock fd | .pushFront fd => [fd]
  | _ => []

/-- **The pipe keeps what is accepted**, and `main` sleeps beside a connection only while the signal
is to come. -/
structure Pipe.Keeps (accepted : List ℕ) (q : Pipe) : Prop where
  all : List.Perm accepted (q.acceptor.pending ++ q.connected ++ q.handled)
  awake : q.main = .waiting → q.connected = [] ∨ q.acceptor = .signal

theorem Pipe.Keeps.step {b : Bool} {fd : Option ℕ} {q q' : Pipe} {accepted : List ℕ} (h : q.Keeps accepted)
    (hs : Pipe.Step b fd q q') : q'.Keeps (accepted ++ fd.toList) := by
  have hall := h.all
  have hawake := h.awake
  cases hs with
  | accept fd m c h' =>
    refine ⟨?_, fun hm => .inl ((hawake hm).resolve_right AcceptorPc.noConfusion)⟩
    exact (List.perm_append_singleton fd accepted).trans (hall.cons fd)
  | create p fd c h' =>
    rw [Option.toList_none, List.append_nil]
    refine ⟨hall.trans ?_, fun hm => by cases hm⟩
    -- the descriptor goes from the head of the list to the end of the devices
    have hmove : List.Perm (fd :: c ++ h') (c ++ (h' ++ [fd])) := by
      rw [← List.append_assoc]
      exact (List.perm_append_singleton fd (c ++ h')).symm
    rw [List.append_assoc, List.append_assoc]
    exact hmove.append_left _
  | pushFront fd m c h' =>
    rw [Option.toList_none, List.append_nil]
    exact ⟨hall, fun _ => .inr rfl⟩
  | wait p h' =>
    rw [Option.toList_none, List.append_nil]
    exact ⟨hall, fun _ => .inl rfl⟩
  | signal m c h' =>
    rw [Option.toList_none, List.append_nil]
    refine ⟨hall, fun hm => ?_⟩
    dsimp only at hm
    split at hm
    · cases hm
    · rename_i hw
      exact absurd hm hw
  | lock fd m c h' =>
    rw [Option.toList_none, List.append_nil]
    exact ⟨hall, fun hm => .inl ((hawake hm).resolve_right AcceptorPc.noConfusion)⟩
  | unlock m c h' =>
    rw [Option.toList_none, List.append_nil]
    exact ⟨hall, fun hm => .inl ((hawake hm).resolve_right AcceptorPc.noConfusion)⟩
  | rest =>
    rw [Option.toList_none, List.append_nil]
    exact h
  | take | begin | created | give | wake =>
    rw [Option.toList_none, List.append_nil]
    exact ⟨hall, fun hm => by cases hm⟩

/-- The process with the list of the descriptors that were accepted. -/
def accepting (C : Crypto) : Runs.Machine (Locking × List ℕ) Move :=
  (locking C).recording [] fun accepted s a => accepted ++ (s.accepted a).toList

theorem Pipe.Keeps.reach {p : Locking × List ℕ} (h : (accepting C).Reach p) : p.1.pipe.Keeps p.2 := by
  refine h.induct (I := fun p => p.1.pipe.Keeps p.2) ?_ ?_
  · rintro ⟨s, accepted⟩ ⟨hs, rfl⟩
    have hs : s.Starts := hs
    have hpipe : s.pipe = ⟨.accept, .lock, [], []⟩ := by
      unfold Locking.pipe Server.handled
      rw [hs.acceptor, hs.main, hs.server.connected, hs.server.created]
      rfl
    show s.pipe.Keeps []
    rw [hpipe]
    exact ⟨List.Perm.refl _, fun hm => by cases hm⟩
  · rintro p a p' - hkeeps - hstep
    obtain ⟨hs, hrec⟩ := Runs.Machine.recording_step hstep
    rw [hrec]
    exact hkeeps.step (Locking.pipe_step hs)

/-- What `accept` has returned is not among the open descriptors before it is in the list. -/
def Locking.Fresh (s : Locking) : Prop := ∀ fd ∈ s.acceptor.pending, fd ∉ s.server.openFds

theorem Locking.Fresh.mono (h : s.Fresh) (ha : s'.acceptor = s.acceptor) (hsub : s'.server.openFds ⊆ s.server.openFds) :
    s'.Fresh := by
  intro fd hfd hopen
  rw [ha] at hfd
  exact h fd hfd (hsub hopen)

theorem Locking.mainStep_fresh {g : Given} (h : s.mainStep C g = some s') :
    s'.acceptor = s.acceptor ∧ s'.server.openFds = s.server.openFds := by
  unfold Locking.mainStep at h
  cases hpc : s.main <;> simp only [hpc] at h
  case create =>
    split at h
    · cases h
      exact ⟨rfl, rfl⟩
    · obtain ⟨x', hx, rfl⟩ := Option.map_eq_some_iff.1 h
      cases Server.step_moves hx with
      | create fd launched networkId last hm => exact ⟨rfl, hm.openFds⟩
  case waiting => cases h
  case unlock =>
    cases h
    exact ⟨rfl, rfl⟩
  all_goals
    split at h <;> cases h
    all_goals exact ⟨rfl, rfl⟩

theorem Locking.acceptorStep_fresh {newFd : ℕ} (hf : s.Fresh) (h : s.acceptorStep C newFd = some s') : s'.Fresh := by
  unfold Locking.acceptorStep at h
  cases hpc : s.acceptor <;> simp only [hpc] at h
  case accept =>
    split at h <;> cases h
    rename_i hnew
    intro fd hfd
    rw [List.mem_singleton.1 hfd]
    exact hnew
  case lock fd =>
    split at h <;> cases h
    intro fd' hfd
    refine hf fd' ?_
    rw [hpc]
    exact hfd
  case pushFront fd =>
    obtain ⟨x', hx, rfl⟩ := Option.map_eq_some_iff.1 h
    exact fun fd' hfd => absurd hfd List.not_mem_nil
  case signal | unlock =>
    cases h
    exact fun fd' hfd => absurd hfd List.not_mem_nil

theorem Locking.Fresh.reach (h : (locking C).Reach s) : s.Fresh := by
  refine h.induct (fun s hs => ?_) fun s a s' _ hf _ hstep => ?_
  · have hs : s.Starts := hs
    unfold Locking.Fresh
    rw [hs.acceptor]
    exact fun fd hfd => absurd hfd List.not_mem_nil
  · have hstep : s.step C a = some s' := hstep
    cases a with
    | run p g =>
      cases p with
      | acceptor => exact Locking.acceptorStep_fresh hf hstep
      | main =>
        obtain ⟨ha, ho⟩ := Locking.mainStep_fresh hstep
        exact hf.mono ha (by rw [ho])
      | thread t =>
        obtain ⟨hp, hsub⟩ := Locking.threadStep_pipe hstep
        exact hf.mono (congrArg Pipe.acceptor hp) hsub
    | wakeMain =>
      simp only [Locking.step] at hstep
      split at hstep <;> cases hstep
      exact hf
    | wakeSender d =>
      obtain ⟨x', hx, rfl⟩ := Option.map_eq_some_iff.1 hstep
      obtain ⟨-, -, hsub⟩ := Server.step_pipe hx (fun fd he => by cases he) fun launched n last he => by cases he
      exact hf.mono rfl hsub

/-! ## The two loops go on -/

/-- All connections that were accepted are handed over: `start_server` waits for the next one, and
`main` for a signal. -/
def Locking.Idle (s : Locking) : Prop := s.acceptor = .accept ∧ s.main = .waiting ∧ s.server.connected = []

instance (s : Locking) : Decidable s.Idle := inferInstanceAs (Decidable (_ ∧ _))

/-- `main` can go on if it does not sleep, and does not stand at a mutex that is taken. -/
theorem Locking.mainStep_isSome {g : Given} (hm : s.main ≠ .waiting)
    (hfree : s.vectorMutex = none ∨ s.main ≠ .lock ∧ s.main ≠ .woken) : (s.mainStep C g).isSome := by
  unfold Locking.mainStep
  cases hpc : s.main <;> simp only [hpc] at hm hfree ⊢
  case lock | woken => simp_all
  case test => split <;> rfl
  case waiting => exact absurd rfl hm
  case create => cases hc : s.server.connected <;> simp [hc, Server.step]
  case unlock => rfl

/-- So can `start_server` unless it waits for a connection. -/
theorem Locking.acceptorStep_isSome {newFd : ℕ} (hf : s.Fresh) (hp : s.acceptor ≠ .accept)
    (hfree : s.vectorMutex = none ∨ ∀ fd, s.acceptor ≠ .lock fd) : (s.acceptorStep C newFd).isSome := by
  unfold Locking.Fresh at hf
  unfold Locking.acceptorStep
  cases hpc : s.acceptor <;> simp only [hpc] at hf hp hfree ⊢
  case accept => exact absurd rfl hp
  case lock fd =>
    rcases hfree with hfree | hne
    · rw [if_pos hfree]
      rfl
    · exact absurd rfl (hne fd)
  case pushFront fd =>
    have hnew : fd ∉ s.server.openFds := hf fd List.mem_cons_self
    simp [Server.step, hnew]
  case signal | unlock => rfl

/-- Who holds `vector_mutex` is one of the two loops, in its section. -/
theorem Sections.vector {p : Party} (h : Sections s) (hp : s.vectorMutex = some p) :
    (p = .acceptor ∧ s.acceptor.held = some .vector) ∨ (p = .main ∧ s.main.held = some .vector) := by
  have hheld : s.held p = some .vector := (h.mutexes .vector p).1 hp
  cases p with
  | acceptor => exact .inl ⟨rfl, hheld⟩
  | main => exact .inr ⟨rfl, hheld⟩
  | thread t =>
    have hheld : (s.phase t).held = some .vector := hheld
    cases hph : s.phase t <;> rw [hph] at hheld <;> cases hheld

/-- **Unless all is handed over, one of the two loops can go on**, without another connection. -/
theorem Locking.goes_on (h : (locking C).Reach s)
    (hawake : s.main = .waiting → s.server.connected = [] ∨ s.acceptor = .signal) :
    s.Idle ∨ ∃ p, (p = .acceptor ∨ p = .main) ∧
      ∀ g, s.accepted (.run p g) = none ∧ (s.step C (.run p g)).isSome := by
  have hsec := Sections.reach h
  have hfresh := Locking.Fresh.reach h
  -- if `start_server` does not hold the mutex, `main` does, or it is free
  have hmain : s.acceptor.held ≠ some .vector → s.vectorMutex = none ∨ s.main.held = some .vector := by
    intro hno
    cases hv : s.vectorMutex with
    | none => exact .inl rfl
    | some p =>
      rcases hsec.vector hv with ⟨-, hp⟩ | ⟨-, hp⟩
      · exact absurd hp hno
      · exact .inr hp
  have hinside : s.main.held = some .vector → s.main ≠ .waiting ∧ s.main ≠ .lock ∧ s.main ≠ .woken := by
    intro hp
    cases hpc : s.main <;> rw [hpc] at hp <;> simp [MainPc.held] at hp ⊢
  by_cases hacc : s.acceptor = .accept
  · by_cases hw : s.main = .waiting
    · refine .inl ⟨hacc, hw, (hawake hw).resolve_right ?_⟩
      rw [hacc]
      exact AcceptorPc.noConfusion
    · refine .inr ⟨.main, .inr rfl, fun g => ⟨rfl, Locking.mainStep_isSome hw ?_⟩⟩
      rcases hmain (by simp [hacc, AcceptorPc.held]) with hfree | hp
      · exact .inl hfree
      · exact .inr (hinside hp).2
  · right
    by_cases hfree : s.vectorMutex = none ∨ ∀ fd, s.acceptor ≠ .lock fd
    · exact ⟨.acceptor, .inl rfl, fun g => ⟨if_neg hacc, Locking.acceptorStep_isSome hfresh hacc hfree⟩⟩
    · obtain ⟨htaken, hlock⟩ := not_or.1 hfree
      obtain ⟨fd, hlock⟩ := not_forall_not.1 hlock
      have hp := (hmain (by simp [hlock, AcceptorPc.held])).resolve_left htaken
      exact ⟨.main, .inr rfl, fun g => ⟨rfl, Locking.mainStep_isSome (hinside hp).1 (.inr (hinside hp).2)⟩⟩

/-- **No accepted connection is lost.** The descriptors that were accepted are those of the devices
and those that are still under way, each as often; `main` does not sleep while one is in the list,
unless it is about to be woken; and unless all are handed over, one of the two loops can go on. -/
theorem handover (C : Crypto) {s : Locking} {accepted : List ℕ} (h : (accepting C).Reach (s, accepted)) :
    List.Perm accepted (s.acceptor.pending ++ s.server.connected ++ s.server.handled) ∧
      (s.main = .waiting → s.server.connected = [] ∨ s.acceptor = .signal) ∧
      (s.Idle ∨ ∃ p, (p = .acceptor ∨ p = .main) ∧
        ∀ g, s.accepted (.run p g) = none ∧ (s.step C (.run p g)).isSome) := by
  have hkeeps := Pipe.Keeps.reach h
  have hreach : (locking C).Reach s := Runs.Machine.ReachWhen.unrecorded h fun _ _ _ => trivial
  exact ⟨hkeeps.all, hkeeps.awake, Locking.goes_on hreach hkeeps.awake⟩

/-! ## How long it takes -/

/-- The steps that `main` needs from the test of its loop until it waits, with `n` connections in the
list. -/
def MainPc.round (n : ℕ) : ℕ := if n = 0 then 1 else n + 5

/-- The steps that `main` needs until it waits. -/
def MainPc.work (n : ℕ) : MainPc → ℕ
  | .waiting => 0
  | .test => round n
  | .lock | .woken => round n + 1
  | .create => n + 4
  | .unlock => round n + 2

/-- The steps that `start_server` needs until it accepts, and those that `main` needs more through
them: for one more connection, and when it is woken. -/
def AcceptorPc.work (n : ℕ) : AcceptorPc → ℕ
  | .accept => 0
  | .lock _ => MainPc.round (n + 1) + 10
  | .pushFront _ => MainPc.round (n + 1) + 9
  | .signal => MainPc.round n + 3
  | .unlock => 1

def Pipe.work (q : Pipe) : ℕ := q.acceptor.work q.connected.length + q.main.work q.connected.length

theorem MainPc.round_mono (n : ℕ) : round n ≤ round (n + 1) ∧ round (n + 1) ≤ round n + 5 := by
  unfold round
  rw [if_neg (Nat.succ_ne_zero n)]
  split <;> omega

theorem MainPc.work_succ (m : MainPc) (n : ℕ) : m.work (n + 1) ≤ m.work n + 5 := by
  have := round_mono n
  cases m <;> simp only [work] <;> omega

theorem AcceptorPc.work_succ (p : AcceptorPc) (n : ℕ) : p.work n ≤ p.work (n + 1) := by
  have := MainPc.round_mono n
  have := MainPc.round_mono (n + 1)
  cases p <;> simp only [work] <;> omega

/-- **A step of one of the loops leaves less work**, if it accepts nothing. -/
theorem Pipe.Step.work {q q' : Pipe} (h : Pipe.Step true none q q') : q'.work < q.work := by
  unfold Pipe.work
  cases h with
  | lock fd m c h => exact Nat.add_lt_add_right (Nat.lt_succ_self _) _
  | pushFront fd m c h =>
    have := m.work_succ c.length
    simp only [AcceptorPc.work, List.length_cons]
    omega
  | signal m c h =>
    simp only [AcceptorPc.work]
    split
    · rename_i hm
      rw [hm]
      simp only [MainPc.work]
      omega
    · omega
  | unlock m c h => exact Nat.add_lt_add_right Nat.zero_lt_one _
  | take p c h hm =>
    rcases hm with rfl | rfl <;> exact Nat.add_lt_add_left (Nat.lt_succ_self _) _
  | wait p h => exact Nat.add_lt_add_left Nat.zero_lt_one _
  | begin p h hc =>
    have hround : ∀ n, n ≠ 0 → MainPc.round n = n + 5 := fun n hn => if_neg hn
    simp only [MainPc.work, hround _ fun h0 => hc (List.length_eq_zero_iff.1 h0)]
    omega
  | create p fd c h =>
    have := p.work_succ c.length
    simp only [MainPc.work, List.length_cons]
    omega
  | created p h =>
    have h0 : MainPc.round 0 = 1 := rfl
    simp only [MainPc.work, List.length_nil, h0]
    omega
  | give p c h => exact Nat.add_lt_add_left (Nat.lt_succ_self _) _

theorem Pipe.work_le (q : Pipe) : q.work ≤ 2 * q.connected.length + 23 := by
  have hround : ∀ n, MainPc.round n ≤ n + 5 := by
    intro n
    unfold MainPc.round
    split <;> omega
  have h0 := hround q.connected.length
  have h1 := hround (q.connected.length + 1)
  unfold Pipe.work
  cases q.acceptor <;> cases q.main <;> simp only [AcceptorPc.work, MainPc.work] <;> omega

/-- A wake-up of `main` that nobody signalled. -/
def Move.spurious : Move → Bool
  | .wakeMain => true
  | _ => false

/-- No connection comes, and nobody wakes `main` without a signal. -/
def Locking.Settles (s : Locking) (a : Move) : Prop := s.accepted a = none ∧ a.spurious = false

instance (s : Locking) (a : Move) : Decidable (s.Settles a) := inferInstanceAs (Decidable (_ ∧ _))

theorem Locking.step_work (h : s.step C a = some s') (hset : s.Settles a) :
    a.turns.toNat + s'.pipe.work ≤ s.pipe.work := by
  obtain ⟨hacc, hspur⟩ := hset
  have hstep := Locking.pipe_step h
  rw [hacc] at hstep
  cases ht : a.turns with
  | true =>
    rw [ht] at hstep
    have := hstep.work
    rw [Bool.toNat_true]
    omega
  | false =>
    -- a thread of a connection, or a sender
    have hsame : s'.pipe = s.pipe := by
      rw [ht] at hstep
      cases a with
      | run p g =>
        cases p with
        | acceptor | main => cases ht
        | thread t => exact (Locking.threadStep_pipe h).1
      | wakeMain => cases hspur
      | wakeSender d => exact Locking.wakeSender_pipe h
    rw [hsame, Bool.toNat_false, Nat.zero_add]

theorem Locking.run_work {as : List Move} (h : (locking C).runWhen Locking.Settles s as = some s') :
    (as.filter Move.turns).length + s'.pipe.work ≤ s.pipe.work := by
  have hprogress := Runs.Machine.runWhen_progress (I := fun _ => True) (T := fun _ => False)
    (r := fun s => s.pipe.work) (m := Move.turns) h trivial (fun _ _ _ _ _ _ => trivial)
    (fun _ _ _ _ hno _ _ => hno) fun _ _ _ _ _ hset hs => .inr (Locking.step_work hs hset)
  exact hprogress.resolve_left id

/-- **The hand-over takes a bounded number of steps.** While no connection comes and nobody wakes
`main` without a signal, the two loops take at most two steps for each connection in the list and 23
more, in whatever order they and all other threads go; and as long as not everything is handed over,
one of the two can go on. -/
theorem handover_bounded (C : Crypto) {s s' : Locking} {as : List Move} (h : (locking C).Reach s)
    (hr : (locking C).runWhen Locking.Settles s as = some s') :
    (as.filter Move.turns).length ≤ 2 * s.server.connected.length + 23 ∧
      (s'.Idle ∨ ∃ p, (p = .acceptor ∨ p = .main) ∧ ∀ g, s'.Settles (.run p g) ∧ (s'.step C (.run p g)).isSome) := by
  constructor
  · have hwork := Locking.run_work hr
    have hle : s.pipe.work ≤ 2 * s.server.connected.length + 23 := s.pipe.work_le
    omega
  · have hreach : (locking C).Reach s' := Runs.Machine.runWhen_induct hr h fun _ a _ hi _ hs => .step a hi trivial hs
    obtain ⟨accepted, hrec⟩ := hreach.exists_recorded [] fun accepted s a => accepted ++ (s.accepted a).toList
    have hkeeps : s'.pipe.Keeps accepted := Pipe.Keeps.reach (C := C) hrec
    refine (Locking.goes_on hreach hkeeps.awake).imp_right ?_
    rintro ⟨p, hp, hgo⟩
    exact ⟨p, hp, fun g => ⟨⟨(hgo g).1, rfl⟩, (hgo g).2⟩⟩

/-- The process when it starts. -/
def Locking.fresh : Locking := ⟨Server.fresh, none, fun _ => none, .accept, .lock, fun _ => .outside⟩

theorem Locking.fresh_starts : Locking.fresh.Starts := ⟨Server.fresh_starts, rfl, rfl, rfl, rfl, rfl⟩

/-- `main` sleeps; a connection comes while it does. -/
def firstClient : List Move := .replicate 2 (.run .main {}) ++ [.run .acceptor { newFd := 4 }]

/-- The connection is handed over. -/
def handedOver : List Move := .replicate 4 (.run .acceptor {}) ++ .replicate 7 (.run .main {})

theorem handover_handedOver : ∃ s, (accepting Crypto.zero).Reach (s, [4]) ∧ s.Idle ∧
    List.Perm [4] (s.acceptor.pending ++ s.server.connected ++ s.server.handled) := by
  have hstart : (accepting Crypto.zero).init (Locking.fresh, []) := ⟨Locking.fresh_starts, rfl⟩
  have hrun : ((accepting Crypto.zero).run (Locking.fresh, []) (firstClient ++ handedOver)).any
      (fun p => p.2 = [4] ∧ p.1.Idle) = true := by
    decide +kernel
  obtain ⟨⟨s, accepted⟩, hr, hs⟩ := Runs.Machine.exists_reach hstart hrun
  obtain ⟨rfl, hidle⟩ := of_decide_eq_true hs
  exact ⟨s, hr, hidle, (handover Crypto.zero hr).1⟩

theorem handover_bounded_handedOver : ∃ s s', (locking Crypto.zero).Reach s ∧
    (locking Crypto.zero).runWhen Locking.Settles s handedOver = some s' ∧ s'.Idle ∧
    (handedOver.filter Move.turns).length ≤ 2 * s.server.connected.length + 23 := by
  have hstart : (locking Crypto.zero).init Locking.fresh := Locking.fresh_starts
  have hrun : ((locking Crypto.zero).run Locking.fresh firstClient).any (fun s =>
      ((locking Crypto.zero).runWhen Locking.Settles s handedOver).any fun s' => s'.Idle) = true := by
    decide +kernel
  obtain ⟨s, hr, hs⟩ := Runs.Machine.exists_reach hstart hrun
  obtain ⟨s', hr', hidle⟩ := (Option.any_eq_true _ _).1 hs
  exact ⟨s, s', hr, hr', of_decide_eq_true hidle, (handover_bounded Crypto.zero hr hr').1⟩

end ServerRoom.Relay
