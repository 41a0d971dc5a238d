import Mathlib.Data.Fintype.Basic
import ServerRoom.Lib.Sharing
import ServerRoom.Spec.Counting

/-!
# `acquire` and `release` as a reference count

Beside a run of the calls goes an atomic reference count (`counted`), and `Tracks` says that the
device follows it while no statement has used the device after it was deleted. The mutex that
protects the count is a field of the device: the release that deletes the device unlocks it
afterwards. `counting_until_unlock`: up to that unlock the calls are a reference count, and in
every run that is finished they are none.
-/

namespace ServerRoom.Relay

open Sharing

namespace HolderPc

/-- The holder has a reference. -/
def holds : HolderPc → Bool
  | acquireUnlock | holding | releaseLock | decrement => true
  | _ => false

/-- The holder has locked the mutex. -/
def inSection : HolderPc → Bool
  | increment | acquireUnlock | decrement | test | close | delete | releaseUnlock => true
  | _ => false

/-- The holder has given its reference back. -/
def released : HolderPc → Bool
  | test | close | delete | releaseUnlock | done => true
  | _ => false

end HolderPc

namespace SharedDevice

variable {T : Type} {s s' : SharedDevice T} {c : RefCount T} {t u : T} {p : HolderPc}

/-- Holder `t` is in the branch of `release` for the last reference. -/
def Disposing (s : SharedDevice T) (t : T) : Prop :=
  s.pc t = .test ∨ s.pc t = .close ∨ s.pc t = .delete ∨ s.pc t = .releaseUnlock ∧ t ∈ s.deleted

theorem Disposing.inSection (h : s.Disposing t) : (s.pc t).inSection = true := by
  rcases h with hp | hp | hp | ⟨hp, -⟩ <;> rw [hp] <;> rfl

theorem Disposing.released (h : s.Disposing t) : (s.pc t).released = true := by
  rcases h with hp | hp | hp | ⟨hp, -⟩ <;> rw [hp] <;> rfl

/-- A holder that has not given its reference back is not in that branch. -/
theorem not_disposing (hp : s.pc t = p) (hr : p.released = false) : ¬ s.Disposing t := by
  intro hd
  have htrue := hd.released
  rw [hp, hr] at htrue
  cases htrue

/-- The branch comes to the unlock with the device deleted. -/
theorem Disposing.deleted (h : s.Disposing t) (hp : s.pc t = .releaseUnlock) : t ∈ s.deleted := by
  rcases h with he | he | he | ⟨-, hmem⟩
  · rw [hp] at he; cases he
  · rw [hp] at he; cases he
  · rw [hp] at he; cases he
  · exact hmem

/-- **The device follows the count**; the count of 32 bits may have gone round. -/
structure Tracks (s : SharedDevice T) (c : RefCount T) : Prop where
  holders : ∀ t, t ∈ c.holders ↔ (s.pc t).holds = true
  count : s.memoryPointers = UInt32.ofNat c.holders.card
  lock : Agree (fun _ : Unit => s.itmesMutex) fun t => if (s.pc t).inSection then some () else none
  last : ∀ t, c.last = some t → s.Disposing t
  empty : c.last ≠ none → c.holders = ∅
  returned : (∃ t, (s.pc t).released = true) → c.holders = ∅ → c.last ≠ none
  deleter : ∀ t ∈ s.deleted, s.pc t = .releaseUnlock

theorem Tracks.init : Tracks (new : SharedDevice T) ⟨∅, none⟩ where
  holders t := by simp [new, HolderPc.holds]
  count := rfl
  lock _ t := by simp [new, HolderPc.inSection]
  last t h := nomatch h
  empty h := absurd rfl h
  returned := by
    rintro ⟨t, ht⟩
    cases ht
  deleter := nofun

/-- At most one holder has the mutex. -/
theorem Tracks.section_unique (h : Tracks s c) (ht : (s.pc t).inSection = true) (hu : (s.pc u).inSection = true) :
    t = u :=
  h.lock.unique (k := ()) (if_pos ht) (if_pos hu)

/-- While a holder has the mutex that is not giving the last reference back, nobody is. -/
theorem Tracks.last_eq_none (h : Tracks s c) (ht : (s.pc t).inSection = true) (hno : ¬ s.Disposing t) :
    c.last = none := by
  cases hl : c.last with
  | none => rfl
  | some u =>
    have hu := h.last u hl
    rw [h.section_unique ht hu.inSection] at hno
    exact absurd hu hno

/-- While somebody has a reference, nobody gives the last one back. -/
theorem Tracks.last_eq_none_of_mem (h : Tracks s c) (hmem : t ∈ c.holders) : c.last = none := by
  by_contra hne
  rw [h.empty hne] at hmem
  cases hmem

/-- A finished run has used the device after it was deleted. -/
theorem Tracks.not_finished (h : Tracks s c) : ¬ s.Finished := by
  rintro ⟨hall, t, ht⟩
  -- nobody has a reference, so somebody is in the branch for the last one
  have hempty : c.holders = ∅ := by
    refine Finset.eq_empty_of_forall_notMem fun u hu => ?_
    rw [h.holders] at hu
    rcases hall u with hp | hp <;> rw [hp] at hu <;> cases hu
  obtain ⟨u, hu⟩ := Option.ne_none_iff_exists'.1 (h.returned ⟨t, by rw [ht]; rfl⟩ hempty)
  have hsec := (h.last u hu).inSection
  rcases hall u with hp | hp <;> rw [hp] at hsec <;> cases hsec

/-- What a step of holder `t` leaves as it was. -/
structure Moves (s : SharedDevice T) (t : T) (s' : SharedDevice T) : Prop where
  pc : ∀ u, u ≠ t → s'.pc u = s.pc u
  deleted : ∀ u, u ≠ t → (u ∈ s'.deleted ↔ u ∈ s.deleted)

theorem Moves.disposing (hm : Moves s t s') (hu : u ≠ t) (h : s.Disposing u) : s'.Disposing u := by
  unfold Disposing
  rw [hm.pc u hu, hm.deleted u hu]
  exact h

/-- How the mutex changes hands in a step of holder `t`. -/
inductive MutexStep (s : SharedDevice T) (t : T) (s' : SharedDevice T) : Prop
  | same : s'.itmesMutex = s.itmesMutex → (s'.pc t).inSection = (s.pc t).inSection → MutexStep s t s'
  | take : s.itmesMutex = none → s'.itmesMutex = some t → (s.pc t).inSection = false → (s'.pc t).inSection = true →
      MutexStep s t s'
  | drop : s'.itmesMutex = none → (s.pc t).inSection = true → (s'.pc t).inSection = false → MutexStep s t s'

theorem Tracks.mutex (h : Tracks s c) (hm : Moves s t s') (hx : MutexStep s t s') :
    Agree (fun _ : Unit => s'.itmesMutex) fun t => if (s'.pc t).inSection then some () else none := by
  have hu : ∀ u, u ≠ t → (if (s'.pc u).inSection then some () else none) =
      if (s.pc u).inSection then some () else none := by
    intro u hne
    rw [hm.pc u hne]
  cases hx with
  | same hmx hsec =>
    refine h.lock.same (fun _ => hmx) fun u => ?_
    by_cases hut : u = t
    · rw [hut, hsec]
    · exact hu u hut
  | take hfree hmx hno hsec =>
    exact h.lock.take (k := ()) hfree (by rw [hno]; rfl) (fun _ => hmx) (by rw [hsec]; rfl) hu
  | drop hmx hsec hno =>
    exact h.lock.drop (k := ()) (by rw [hsec]; rfl) (fun _ => hmx) (by rw [hno]; rfl) hu

/-- A step that leaves the count as it was. -/
theorem Tracks.move (h : Tracks s c) (hm : Moves s t s') (hx : MutexStep s t s')
    (hcount : s'.memoryPointers = s.memoryPointers) (hholds : (s'.pc t).holds = (s.pc t).holds)
    (hreleased : (s'.pc t).released = true → (s.pc t).released = true)
    (hlast : c.last = some t → s'.Disposing t) (hdel : t ∈ s'.deleted → s'.pc t = .releaseUnlock) : Tracks s' c where
  holders u := by
    by_cases hut : u = t
    · rw [hut, hholds]
      exact h.holders t
    · rw [hm.pc u hut]
      exact h.holders u
  count := hcount.trans h.count
  lock := h.mutex hm hx
  last u hl := by
    by_cases hut : u = t
    · subst hut
      exact hlast hl
    · exact hm.disposing hut (h.last u hl)
  empty := h.empty
  returned := by
    rintro ⟨u, hu⟩
    refine h.returned ⟨u, ?_⟩
    by_cases hut : u = t
    · rw [hut] at hu ⊢
      exact hreleased hu
    · rw [← hm.pc u hut]
      exact hu
  deleter u hu := by
    by_cases hut : u = t
    · subst hut
      exact hdel hu
    · rw [hm.pc u hut]
      exact h.deleter u ((hm.deleted u hut).1 hu)

/-! ## What the calls are to do -/

/-- What the release of the last reference has closed and deleted before its next statement. -/
def disposal (t : T) : HolderPc → Option (List T × List T)
  | .test | .close => some ([], [])
  | .delete => some ([t], [])
  | .releaseUnlock | .done => some ([t], [t])
  | _ => none

/-- **The device implements the count**: `memory_pointers` is the number of holders, the socket
is closed and the device deleted once, by the release of the last reference, and no statement
uses the device after that. -/
structure Implements (s : SharedDevice T) (c : RefCount T) : Prop where
  holders : ∀ t, t ∈ c.holders ↔ (s.pc t).holds = true
  count : s.memoryPointers.toNat = c.holders.card
  shared : c.last = none → s.closed = [] ∧ s.deleted = []
  disposed : ∀ t, c.last = some t → disposal t (s.pc t) = some (s.closed, s.deleted)
  returned : (∃ t, (s.pc t).released = true) → c.holders = ∅ → c.last ≠ none
  stale : s.stale = 0

/-- The count does not go round, the device is not deleted while an `acquire` waits for its
mutex, and the release that deleted the device does not unlock it. -/
structure Keeps (s : SharedDevice T) (t : T) : Prop where
  increment : s.pc t = .increment → s.memoryPointers.toNat + 1 < 2 ^ 32
  delete : s.pc t = .delete → ∀ u, s.pc u ≠ .acquireLock
  unlock : s.pc t = .releaseUnlock → t ∉ s.deleted

/-- What holds beside `Tracks` in a run that meets the condition. -/
structure Disposes (s : SharedDevice T) (c : RefCount T) : Prop where
  small : c.holders.card < 2 ^ 32
  shared : c.last = none → s.closed = [] ∧ s.deleted = []
  disposed : ∀ t, c.last = some t → disposal t (s.pc t) = some (s.closed, s.deleted)
  branch : ∀ t, s.pc t = .close ∨ s.pc t = .delete → c.last = some t
  returned : c.last ≠ none → s.returned = true
  alone : s.deleted ≠ [] → ∀ u, u ∉ s.deleted → s.pc u = .idle ∨ s.pc u = .done
  stale : s.stale = 0

theorem Disposes.init : Disposes (new : SharedDevice T) ⟨∅, none⟩ where
  small := by simp
  shared _ := ⟨rfl, rfl⟩
  disposed t h := nomatch h
  branch t h := by rcases h with h | h <;> cases h
  returned h := absurd rfl h
  alone h := absurd rfl h
  stale := rfl

theorem Disposes.count (h : Disposes s c) (ht : Tracks s c) : s.memoryPointers.toNat = c.holders.card := by
  rw [ht.count, UInt32.toNat_ofNat']
  exact Nat.mod_eq_of_lt h.small

theorem Disposes.implements (h : Disposes s c) (ht : Tracks s c) : Implements s c :=
  ⟨ht.holders, h.count ht, h.shared, h.disposed, ht.returned, h.stale⟩

/-- A step that neither closes nor deletes, nor changes the count. -/
theorem Disposes.move (h : Disposes s c) (hd : s.deleted = []) (hpc : ∀ u, u ≠ t → s'.pc u = s.pc u)
    (hkept : s'.closed = s.closed ∧ s'.deleted = s.deleted ∧ s'.returned = s.returned ∧ s'.stale = s.stale)
    (hlast : c.last = some t → disposal t (s'.pc t) = disposal t (s.pc t))
    (hbranch : s'.pc t = .close ∨ s'.pc t = .delete → c.last = some t) : Disposes s' c := by
  obtain ⟨hclosed, hdeleted, hreturned, hstale⟩ := hkept
  refine ⟨h.small, ?_, fun u hl => ?_, fun u hu => ?_, ?_, fun hne => ?_, hstale.trans h.stale⟩
  · rw [hclosed, hdeleted]
    exact h.shared
  · rw [hclosed, hdeleted]
    by_cases hut : u = t
    · subst hut
      exact (hlast hl).trans (h.disposed u hl)
    · rw [hpc u hut]
      exact h.disposed u hl
  · by_cases hut : u = t
    · subst hut
      exact hbranch hu
    · rw [hpc u hut] at hu
      exact h.branch u hu
  · rw [hreturned]
    exact h.returned
  · rw [hdeleted] at hne
    exact absurd hd hne

/-! ## Statements -/

/-- A statement on a device that is not deleted. -/
theorem touch_eq (hd : s.deleted = []) : s.touch = s := by
  cases s
  simp_all [touch]

theorem stale_touch (hd : s.deleted ≠ []) : 0 < s.touch.stale := by
  unfold touch
  rw [if_neg (by simpa using hd)]
  exact Nat.succ_pos _

variable [DecidableEq T]

theorem goto_pc : (s.goto t p).pc t = p := Function.update_self _ _ _

theorem goto_pc_ne (h : u ≠ t) : (s.goto t p).pc u = s.pc u := Function.update_of_ne h _ _

/-- A call of `pthread_mutex_lock` takes the free mutex, or waits. -/
theorem lock_cases (s : SharedDevice T) (t : T) (p : HolderPc) :
    s.lock t p = s ∨ s.itmesMutex = none ∧ s.lock t p = { s with itmesMutex := some t }.goto t p := by
  unfold lock
  cases s.itmesMutex with
  | none => exact .inr ⟨rfl, rfl⟩
  | some u => exact .inl rfl

/-- Every statement uses the device; only the calls do not. -/
theorem stale_step (hs : s.step t = some s') : s.pc t = .idle ∨ s.pc t = .holding ∨ s'.stale = s.touch.stale := by
  have hlock : ∀ p, (s.touch.lock t p).stale = s.touch.stale := by
    intro p
    rcases lock_cases s.touch t p with hl | ⟨-, hl⟩
    · rw [hl]
    · rw [hl]
      rfl
  unfold step at hs
  cases hp : s.pc t <;> rw [hp] at hs
  case idle => exact .inl rfl
  case holding => exact .inr (.inl rfl)
  case acquireLock | releaseLock => cases hs; exact .inr (.inr (hlock _))
  case done => cases hs
  all_goals cases hs; exact .inr (.inr rfl)

theorem stale_le (hs : s.step t = some s') : s.stale ≤ s'.stale := by
  have htouch : s.stale ≤ s.touch.stale := by
    unfold touch
    dsimp only
    split
    · exact le_rfl
    · exact Nat.le_succ _
  rcases stale_step hs with hp | hp | hst
  · simp only [SharedDevice.step, hp] at hs
    split at hs
    · cases hs
    · cases hs
      exact le_rfl
  · simp only [SharedDevice.step, hp] at hs
    cases hs
    exact le_rfl
  · rw [hst]
    exact htouch

/-- While no statement has used the device after its delete, only calls come after the delete. -/
theorem step_undeleted (hs : s.step t = some s') (h0 : s'.stale = 0) :
    s.pc t = .idle ∨ s.pc t = .holding ∨ s.deleted = [] := by
  rcases stale_step hs with hp | hp | hst
  · exact .inl hp
  · exact .inr (.inl hp)
  · refine .inr (.inr ?_)
    by_contra hd
    have hpos := stale_touch hd
    omega

/-! ## The count beside a run -/

/-- The abstract count changes when `memory_pointers` does. -/
def record (c : RefCount T) (s : SharedDevice T) (t : T) : RefCount T :=
  match s.pc t with
  | .increment => c.acquire t
  | .decrement => c.release t
  | _ => c

/-- A statement of `t`, by what it does before `t` goes on: `r` is the device then. -/
theorem moves_goto {r : SharedDevice T} (hpc : r.pc = s.pc) (hdel : r.deleted = s.deleted) (t : T) (p : HolderPc) :
    Moves s t (r.goto t p) where
  pc u hu := (goto_pc_ne hu).trans (congrFun hpc u)
  deleted u _ := by
    show u ∈ r.deleted ↔ u ∈ s.deleted
    rw [hdel]

/-- A holder that waits for the mutex: `p` is where it stands, `p'` where it goes. -/
theorem Tracks.lock_step (h : Tracks s c) {p' : HolderPc} (hp : s.pc t = p)
    (hsec : p.inSection = false ∧ p'.inSection = true) (hholds : p'.holds = p.holds)
    (hreleased : p'.released = true → p.released = true) (hdel : t ∉ s.deleted) : Tracks (s.lock t p') c := by
  rcases lock_cases s t p' with hl | ⟨hfree, hl⟩
  · rw [hl]
    exact h
  · have hno : ¬ s.Disposing t := fun hd => by
      rw [← hp, hd.inSection] at hsec
      exact absurd hsec.1 (by decide)
    rw [hl]
    subst hp
    refine h.move (moves_goto (by rfl) (by rfl) t p') (.take hfree rfl hsec.1 ?_) rfl ?_ ?_
      (fun hlast => absurd (h.last t hlast) hno) fun hmem => absurd hmem hdel
    · rw [goto_pc]
      exact hsec.2
    · rw [goto_pc]
      exact hholds
    · rw [goto_pc]
      exact hreleased

/-- A holder that unlocks the mutex. -/
theorem Tracks.unlock_step (h : Tracks s c) {p' : HolderPc} (hp : s.pc t = p)
    (hsec : p.inSection = true ∧ p'.inSection = false) (hholds : p'.holds = p.holds)
    (hreleased : p'.released = true → p.released = true) (hno : ¬ s.Disposing t) (hdel : t ∉ s.deleted) :
    Tracks (s.unlock t p') c := by
  subst hp
  refine h.move (moves_goto (by rfl) (by rfl) t p') (.drop rfl hsec.1 ?_) rfl ?_ ?_
    (fun hlast => absurd (h.last t hlast) hno) fun hmem => absurd hmem hdel
  · exact (congrArg HolderPc.inSection goto_pc).trans hsec.2
  · exact (congrArg HolderPc.holds goto_pc).trans hholds
  · intro hr
    exact hreleased ((congrArg HolderPc.released goto_pc).symm.trans hr)

/-- A holder that goes on to another statement, with the mutex or without it. -/
theorem Tracks.goto_step (h : Tracks s c) {p' : HolderPc} (hp : s.pc t = p) (hsec : p'.inSection = p.inSection)
    (hholds : p'.holds = p.holds) (hreleased : p'.released = true → p.released = true)
    (hlast : c.last = some t → p' = .close ∨ p' = .delete) (hdel : t ∉ s.deleted) : Tracks (s.goto t p') c := by
  subst hp
  refine h.move (moves_goto (by rfl) (by rfl) t p') (.same rfl ?_) rfl ?_ ?_ (fun hl => ?_)
    fun hmem => absurd hmem hdel
  · rw [goto_pc]
    exact hsec
  · rw [goto_pc]
    exact hholds
  · rw [goto_pc]
    exact hreleased
  · unfold Disposing
    rw [goto_pc]
    rcases hlast hl with hc | hc
    · exact .inr (.inl hc)
    · exact .inr (.inr (.inl hc))

/-- `acquire` takes its reference. -/
theorem Tracks.increment (h : Tracks s c) (hp : s.pc t = .increment) (hd : s.deleted = []) :
    Tracks ({ s with memoryPointers := s.memoryPointers + 1 }.goto t .acquireUnlock) (c.acquire t) := by
  have hsec : (s.pc t).inSection = true := by rw [hp]; rfl
  have hnone : c.last = none := h.last_eq_none hsec (not_disposing hp rfl)
  have hnew : t ∉ c.holders := by
    rw [h.holders, hp]
    decide
  refine ⟨fun u => ?_, ?_, ?_, fun u hu => ?_, fun hl => absurd hnone hl, fun _ he => ?_, fun u hu => ?_⟩
  · rw [RefCount.mem_acquire]
    by_cases hut : u = t
    · subst hut
      rw [goto_pc]
      simp [HolderPc.holds]
    · rw [goto_pc_ne hut, h.holders]
      exact or_iff_right hut
  · show s.memoryPointers + 1 = _
    rw [RefCount.card_acquire hnew, h.count, UInt32.ofNat_add]
    rfl
  · refine h.mutex (moves_goto (by rfl) (by rfl) t _) (.same rfl ?_)
    rw [goto_pc, hsec]
    rfl
  · exact absurd (hnone.symm.trans hu) nofun
  · exact absurd he (Finset.insert_ne_empty _ _)
  · have hmem : u ∈ s.deleted := hu
    rw [hd] at hmem
    cases hmem

/-- `release` gives it back. -/
theorem Tracks.decrement (h : Tracks s c) (hp : s.pc t = .decrement) (hd : s.deleted = []) (b : Bool) :
    Tracks ({ s with memoryPointers := s.memoryPointers - 1, returned := b }.goto t .test) (c.release t) := by
  have hsec : (s.pc t).inSection = true := by rw [hp]; rfl
  have hmem : t ∈ c.holders := by
    rw [h.holders, hp]
    rfl
  have hnone : c.last = none := h.last_eq_none_of_mem hmem
  have hcard := RefCount.card_release hmem
  refine ⟨fun u => ?_, ?_, ?_, fun u hu => ?_, fun hl => ?_, fun _ he => ?_, fun u hu => ?_⟩
  · rw [RefCount.mem_release]
    by_cases hut : u = t
    · subst hut
      rw [goto_pc]
      simp [HolderPc.holds]
    · rw [goto_pc_ne hut, h.holders]
      exact and_iff_right hut
  · show s.memoryPointers - 1 = _
    rw [h.count, ← hcard, UInt32.ofNat_add]
    exact UInt32.add_sub_cancel _ _
  · refine h.mutex (moves_goto (by rfl) (by rfl) t _) (.same rfl ?_)
    rw [goto_pc, hsec]
    rfl
  · rw [RefCount.release_last_eq_some hnone hu]
    exact .inl goto_pc
  · exact (RefCount.release_last_ne_none_iff hnone).1 hl
  · exact (RefCount.release_last_ne_none_iff hnone).2 he
  · have hdel : u ∈ s.deleted := hu
    rw [hd] at hdel
    cases hdel

/-- The socket is closed. -/
theorem Tracks.close_step (h : Tracks s c) (hp : s.pc t = .close) (hdel : t ∉ s.deleted) (l : List T) :
    Tracks ({ s with closed := l }.goto t .delete) c := by
  have hclosed : Tracks { s with closed := l } c :=
    ⟨h.holders, h.count, h.lock, h.last, h.empty, h.returned, h.deleter⟩
  exact hclosed.goto_step hp rfl rfl (fun _ => rfl) (fun _ => .inr rfl) hdel

/-- The device is deleted. -/
theorem Tracks.delete_step (h : Tracks s c) (hp : s.pc t = .delete) :
    Tracks ({ s with deleted := s.deleted ++ [t] }.goto t .releaseUnlock) c := by
  have hpc : ({ s with deleted := s.deleted ++ [t] }.goto t .releaseUnlock).pc t = .releaseUnlock := goto_pc
  have hmem : t ∈ s.deleted ++ [t] := List.mem_append_right _ (.head _)
  refine h.move ⟨fun u hu => goto_pc_ne hu, fun u hu => ?_⟩ (.same rfl ?_) rfl ?_ (fun _ => ?_)
    (fun _ => .inr (.inr (.inr ⟨hpc, hmem⟩))) fun _ => hpc
  · show u ∈ s.deleted ++ [t] ↔ u ∈ s.deleted
    simp [hu]
  · rw [hpc, hp]
    rfl
  · rw [hpc, hp]
    rfl
  · rw [hp]
    rfl

/-- A call begins. -/
theorem Tracks.call_step (h : Tracks s c) {p' : HolderPc}
    (hp : s.pc t = .idle ∧ p' = .acquireLock ∨ s.pc t = .holding ∧ p' = .releaseLock) : Tracks (s.goto t p') c := by
  have hdel : t ∉ s.deleted := fun hmem => by
    have hpc := h.deleter t hmem
    rcases hp with ⟨hp, -⟩ | ⟨hp, -⟩ <;> rw [hp] at hpc <;> cases hpc
  have hno : c.last ≠ some t := fun hl => by
    have hsec := (h.last t hl).inSection
    rcases hp with ⟨hp, -⟩ | ⟨hp, -⟩ <;> rw [hp] at hsec <;> cases hsec
  rcases hp with ⟨hp, rfl⟩ | ⟨hp, rfl⟩
  · exact h.goto_step hp rfl rfl (fun hr => by cases hr) (fun hl => absurd hl hno) hdel
  · exact h.goto_step hp rfl rfl (fun hr => by cases hr) (fun hl => absurd hl hno) hdel

/-- The count is tested. -/
theorem Tracks.test_step (h : Tracks s c) (hp : s.pc t = .test) (hdel : t ∉ s.deleted) :
    Tracks (s.goto t (if 0 = s.memoryPointers then .close else .releaseUnlock)) c := by
  by_cases hz : 0 = s.memoryPointers
  · rw [if_pos hz]
    exact h.goto_step hp rfl rfl (fun _ => rfl) (fun _ => .inl rfl) hdel
  · rw [if_neg hz]
    refine h.goto_step hp rfl rfl (fun _ => rfl) (fun hl => absurd ?_ hz) hdel
    -- the last reference was given back, so the count is 0
    rw [h.count, h.empty (by rw [hl]; exact Option.some_ne_none t)]
    rfl

/-- **The device follows the count**, until a statement uses it after it was deleted. -/
theorem Tracks.step (h : Tracks s c) (hs : s.step t = some s') (h0 : s'.stale = 0) : Tracks s' (record c s t) := by
  have hund := step_undeleted hs h0
  unfold SharedDevice.step at hs
  unfold record
  cases hp : s.pc t
  case idle =>
    simp only [hp] at hs ⊢
    split at hs
    · cases hs
    · cases hs
      exact h.call_step (.inl ⟨hp, rfl⟩)
  case holding =>
    simp only [hp] at hs ⊢
    cases hs
    exact h.call_step (.inr ⟨hp, rfl⟩)
  -- the other statements use the device, so it is not deleted
  all_goals
    have hd : s.deleted = [] := by simpa [hp] using hund
    have hdel : t ∉ s.deleted := by simp [hd]
    simp only [hp, touch_eq hd] at hs ⊢
    cases hs
  case acquireLock => exact h.lock_step hp (by decide) rfl (fun hr => by cases hr) hdel
  case increment => exact h.increment hp hd
  case acquireUnlock =>
    exact h.unlock_step hp (by decide) rfl (fun hr => by cases hr) (not_disposing hp rfl) hdel
  case releaseLock => exact h.lock_step hp (by decide) rfl (fun hr => by cases hr) hdel
  case decrement => exact h.decrement hp hd _
  case test => exact h.test_step hp hdel
  case close => exact h.close_step hp hdel _
  case delete => exact h.delete_step hp
  case releaseUnlock =>
    exact h.unlock_step hp (by decide) rfl (fun _ => rfl) (fun hdis => hdel (hdis.deleted hp)) hdel

/-- After the delete no step is left that meets the condition. -/
theorem Disposes.undeleted (h : Disposes s c) (ht : Tracks s c) (hk : Keeps s t) (hs : s.step t = some s') :
    s.deleted = [] := by
  by_contra hd
  by_cases hmem : t ∈ s.deleted
  · exact hk.unlock (ht.deleter t hmem) hmem
  · -- another holder could only start a call, and no `acquire` starts any more
    unfold SharedDevice.step at hs
    rcases h.alone hd t hmem with hp | hp <;> rw [hp] at hs <;> dsimp only at hs
    · have hret : s.returned = true := h.returned fun hnone => hd (h.shared hnone).2
      rw [if_pos hret] at hs
      cases hs
    · cases hs

/-- A holder goes on that is not in the branch for the last reference. -/
theorem Disposes.pass (h : Disposes s c) (hd : s.deleted = []) (hno : c.last ≠ some t) {p' : HolderPc}
    (hp' : p' ≠ .close ∧ p' ≠ .delete) (mutex : Option T) :
    Disposes ({ s with itmesMutex := mutex }.goto t p') c := by
  refine h.move hd (fun u hu => goto_pc_ne hu) ⟨rfl, rfl, rfl, rfl⟩ (fun hl => absurd hl hno) fun hc => ?_
  rw [goto_pc] at hc
  exact (hc.elim hp'.1 hp'.2).elim

theorem Disposes.lock_step (h : Disposes s c) (hd : s.deleted = []) (hno : c.last ≠ some t) {p' : HolderPc}
    (hp' : p' ≠ .close ∧ p' ≠ .delete) : Disposes (s.lock t p') c := by
  rcases lock_cases s t p' with hl | ⟨-, hl⟩ <;> rw [hl]
  · exact h
  · exact h.pass hd hno hp' (some t)

theorem Disposes.increment (h : Disposes s c) (ht : Tracks s c) (hd : s.deleted = []) (hp : s.pc t = .increment)
    (hk : s.memoryPointers.toNat + 1 < 2 ^ 32) :
    Disposes ({ s with memoryPointers := s.memoryPointers + 1 }.goto t .acquireUnlock) (c.acquire t) := by
  have hmoved : Disposes ({ s with memoryPointers := s.memoryPointers + 1 }.goto t .acquireUnlock) c := by
    refine h.move hd (fun u hu => goto_pc_ne hu) ⟨rfl, rfl, rfl, rfl⟩ (fun hlast => ?_) fun hc => ?_
    · exact absurd (ht.last t hlast) (not_disposing hp rfl)
    · rw [goto_pc] at hc
      rcases hc with hc | hc <;> cases hc
  have hnew : t ∉ c.holders := by
    rw [ht.holders, hp]
    decide
  refine ⟨?_, hmoved.shared, hmoved.disposed, hmoved.branch, hmoved.returned, hmoved.alone, hmoved.stale⟩
  rw [RefCount.card_acquire hnew, ← h.count ht]
  exact hk

theorem Disposes.decrement (h : Disposes s c) (ht : Tracks s c) (hp : s.pc t = .decrement) :
    Disposes ({ s with
      memoryPointers := s.memoryPointers - 1
      returned := s.returned || s.memoryPointers - 1 = 0 }.goto t .test) (c.release t) := by
  have hmem : t ∈ c.holders := by
    rw [ht.holders, hp]
    rfl
  have hnone : c.last = none := ht.last_eq_none_of_mem hmem
  have hcard := RefCount.card_release hmem
  have hsmall := h.small
  obtain ⟨hclosed, hdeleted⟩ := h.shared hnone
  refine ⟨by omega, fun _ => ⟨hclosed, hdeleted⟩, fun u hl => ?_, fun u hu => ?_, fun hl => ?_,
    fun hne => absurd hdeleted hne, h.stale⟩
  · -- the last reference is given back by `t`
    rw [RefCount.release_last_eq_some hnone hl, goto_pc]
    show some ([], []) = some (s.closed, s.deleted)
    rw [hclosed, hdeleted]
  · by_cases hut : u = t
    · rw [hut, goto_pc] at hu
      rcases hu with hu | hu <;> cases hu
    · rw [goto_pc_ne hut] at hu
      exact absurd (hnone.symm.trans (h.branch u hu)) nofun
  · have hempty : (c.release t).holders = ∅ := (RefCount.release_last_ne_none_iff hnone).1 hl
    rw [hempty, Finset.card_empty] at hcard
    have hone : s.memoryPointers = 1 := by
      rw [ht.count, ← hcard]
      rfl
    show (s.returned || decide (s.memoryPointers - 1 = 0)) = true
    rw [hone]
    exact Bool.or_true _

theorem Disposes.test_step (h : Disposes s c) (ht : Tracks s c) (hd : s.deleted = []) (hp : s.pc t = .test) :
    Disposes (s.goto t (if 0 = s.memoryPointers then .close else .releaseUnlock)) c := by
  have hsec : (s.pc t).inSection = true := by rw [hp]; rfl
  by_cases hz : 0 = s.memoryPointers
  · -- the count is 0, so `t` has given the last reference back
    have hempty : c.holders = ∅ := by
      rw [← Finset.card_eq_zero, ← h.count ht, ← hz]
      rfl
    obtain ⟨u, hu⟩ := Option.ne_none_iff_exists'.1 (ht.returned ⟨t, by rw [hp]; rfl⟩ hempty)
    rw [← ht.section_unique hsec (ht.last u hu).inSection] at hu
    rw [if_pos hz]
    refine h.move hd (fun u hu => goto_pc_ne hu) ⟨rfl, rfl, rfl, rfl⟩ (fun _ => ?_) fun _ => hu
    rw [goto_pc, hp]
    rfl
  · rw [if_neg hz]
    refine h.move hd (fun u hu => goto_pc_ne hu) ⟨rfl, rfl, rfl, rfl⟩ (fun hl => absurd ?_ hz) fun hc => ?_
    · rw [ht.count, ht.empty (by rw [hl]; exact Option.some_ne_none t)]
      rfl
    · rw [goto_pc] at hc
      rcases hc with hc | hc <;> cases hc

/-- The holder that gives the last reference back goes on in the branch for it. -/
theorem Disposes.branch_goto (h : Disposes s c) {r : SharedDevice T} (hpc : r.pc = s.pc) (hlast : c.last = some t)
    (hu : (r.goto t p).pc u = .close ∨ (r.goto t p).pc u = .delete) : c.last = some u := by
  by_cases hut : u = t
  · rw [hut]
    exact hlast
  · rw [goto_pc_ne hut, hpc] at hu
    exact h.branch u hu

theorem Disposes.close_step (h : Disposes s c) (hd : s.deleted = []) (hp : s.pc t = .close) :
    Disposes ({ s with closed := s.closed ++ [t] }.goto t .delete) c := by
  have hlast : c.last = some t := h.branch t (.inl hp)
  have hbefore := h.disposed t hlast
  rw [hp] at hbefore
  obtain ⟨hclosed, -⟩ := Prod.mk.inj (Option.some.inj hbefore)
  refine ⟨h.small, fun hnone => ?_, fun u hl => ?_, fun u hu => ?_, h.returned, fun hne => absurd hd hne, h.stale⟩
  · exact absurd (hnone.symm.trans hlast) nofun
  · rw [← Option.some.inj (hlast.symm.trans hl), goto_pc]
    show some ([t], []) = some (s.closed ++ [t], s.deleted)
    rw [← hclosed, hd]
    rfl
  · exact h.branch_goto (by rfl) hlast hu

/-- **The delete**: nobody else is in a call. -/
theorem Disposes.delete_step (h : Disposes s c) (ht : Tracks s c) (hd : s.deleted = []) (hp : s.pc t = .delete)
    (hk : ∀ u, s.pc u ≠ .acquireLock) :
    Disposes ({ s with deleted := s.deleted ++ [t] }.goto t .releaseUnlock) c := by
  have hlast : c.last = some t := h.branch t (.inr hp)
  have hbefore := h.disposed t hlast
  rw [hp] at hbefore
  obtain ⟨hclosed, -⟩ := Prod.mk.inj (Option.some.inj hbefore)
  have hempty : c.holders = ∅ := ht.empty (by rw [hlast]; exact Option.some_ne_none t)
  refine ⟨h.small, fun hnone => ?_, fun u hl => ?_, fun u hu => ?_, h.returned, fun _ u hu => ?_, h.stale⟩
  · exact absurd (hnone.symm.trans hlast) nofun
  · rw [← Option.some.inj (hlast.symm.trans hl), goto_pc]
    show some ([t], [t]) = some (s.closed, s.deleted ++ [t])
    rw [← hclosed, hd]
    rfl
  · exact h.branch_goto (by rfl) hlast hu
  · have hut : u ≠ t := fun he => hu (he ▸ List.mem_append_right _ (.head _))
    rw [goto_pc_ne hut]
    -- `u` has no reference, has not locked the mutex, and does not wait for it
    have hholds : (s.pc u).holds = false := by
      rw [← Bool.not_eq_true, ← ht.holders u, hempty]
      exact Finset.notMem_empty u
    have hsec : (s.pc u).inSection = false := by
      rw [← Bool.not_eq_true]
      exact fun hsec => hut (ht.section_unique hsec (by rw [hp]; rfl))
    have hwait := hk u
    cases hpu : s.pc u <;> rw [hpu] at hholds hsec hwait <;> simp_all [HolderPc.holds, HolderPc.inSection]

theorem Disposes.step (h : Disposes s c) (ht : Tracks s c) (hk : Keeps s t) (hs : s.step t = some s') :
    Disposes s' (record c s t) := by
  have hd := h.undeleted ht hk hs
  have hno : ¬ s.Disposing t → c.last ≠ some t := fun hdis hl => hdis (ht.last t hl)
  unfold Disposing at hno
  unfold SharedDevice.step at hs
  unfold record
  rw [touch_eq hd] at hs
  cases hp : s.pc t <;> rw [hp] at hs hno <;> dsimp only at hs ⊢
  case idle =>
    split at hs
    · cases hs
    · cases hs
      exact h.pass hd (hno (by simp)) (by decide) s.itmesMutex
  case acquireLock => cases hs; exact h.lock_step hd (hno (by simp)) (by decide)
  case increment => cases hs; exact h.increment ht hd hp (hk.increment hp)
  case acquireUnlock => cases hs; exact h.pass hd (hno (by simp)) (by decide) none
  case holding => cases hs; exact h.pass hd (hno (by simp)) (by decide) s.itmesMutex
  case releaseLock => cases hs; exact h.lock_step hd (hno (by simp)) (by decide)
  case decrement => cases hs; exact h.decrement ht hp
  case test => cases hs; exact h.test_step ht hd hp
  case close => cases hs; exact h.close_step hd hp
  case delete => cases hs; exact h.delete_step ht hd hp (hk.delete hp)
  case releaseUnlock => cases hs; exact h.pass hd (hno (by simp [hd])) (by decide) none
  case done => cases hs

/-! ## Runs -/

/-- The calls, with the abstract count beside them. -/
def counted (T : Type) [DecidableEq T] : Runs.Machine (SharedDevice T × RefCount T) T :=
  (sharedDevice T).recording ⟨∅, none⟩ record

theorem Tracks.reach {q : SharedDevice T × RefCount T} (h : (counted T).Reach q) (h0 : q.1.stale = 0) :
    Tracks q.1 q.2 := by
  refine h.induct (I := fun q => q.1.stale = 0 → Tracks q.1 q.2) ?_ ?_ h0
  · rintro ⟨s, c⟩ ⟨rfl, rfl⟩ -
    exact .init
  · rintro ⟨s, c⟩ t ⟨s', c'⟩ - ih - hs h0'
    obtain ⟨hs, rfl⟩ := Runs.Machine.recording_step hs
    have hstep : s.step t = some s' := hs
    have hle : s.stale ≤ s'.stale := stale_le hstep
    have hzero : s'.stale = 0 := h0'
    exact (ih (by dsimp only; omega)).step hstep hzero

/-- **Up to the unlock** after the delete the device implements the count. -/
theorem Disposes.reach {q : SharedDevice T × RefCount T} (h : (counted T).ReachWhen (fun q t => Keeps q.1 t) q) :
    Tracks q.1 q.2 ∧ Disposes q.1 q.2 := by
  refine h.induct (I := fun q => Tracks q.1 q.2 ∧ Disposes q.1 q.2) ?_ ?_
  · rintro ⟨s, c⟩ ⟨rfl, rfl⟩
    exact ⟨.init, .init⟩
  · rintro ⟨s, c⟩ t ⟨s', c'⟩ - ⟨ht, hd⟩ hk hs
    obtain ⟨hs, rfl⟩ := Runs.Machine.recording_step hs
    have hstep : s.step t = some s' := hs
    have hd' := hd.step ht hk hstep
    exact ⟨ht.step hstep hd'.stale, hd'⟩

/-- **The calls are an atomic reference count until the release that has deleted the device
unlocks its mutex**: in no run after that, and so in no run that is finished. -/
theorem counting_until_unlock (T : Type) [DecidableEq T] :
    (∀ q, (counted T).ReachWhen (fun q t => Keeps q.1 t) q → Implements q.1 q.2) ∧
      (∀ q t q', (counted T).Reach q → q.1.pc t = .releaseUnlock → t ∈ q.1.deleted →
        (counted T).step q t = some q' → ¬ Implements q'.1 q'.2) ∧
      ∀ q, (counted T).Reach q → q.1.Finished → ¬ Implements q.1 q.2 := by
  refine ⟨fun q hq => ?_, fun q t q' hq hp hmem hs hi => ?_, fun q hq hf hi => ?_⟩
  · obtain ⟨ht, hd⟩ := Disposes.reach hq
    exact hd.implements ht
  · obtain ⟨hs, -⟩ := Runs.Machine.recording_step hs
    have hstep : q.1.step t = some q'.1 := hs
    rcases step_undeleted hstep hi.stale with he | he | he
    · rw [hp] at he
      cases he
    · rw [hp] at he
      cases he
    · rw [he] at hmem
      cases hmem
  · exact (Tracks.reach hq hi.stale).not_finished hf

instance [Fintype T] (s : SharedDevice T) : Decidable s.Finished :=
  inferInstanceAs (Decidable ((∀ t, s.pc t = .idle ∨ s.pc t = .done) ∧ ∃ t, s.pc t = .done))

instance [Fintype T] (s : SharedDevice T) (t : T) : Decidable (Keeps s t) :=
  decidable_of_iff ((s.pc t = .increment → s.memoryPointers.toNat + 1 < 2 ^ 32) ∧
      (s.pc t = .delete → ∀ u, s.pc u ≠ .acquireLock) ∧ (s.pc t = .releaseUnlock → t ∉ s.deleted))
    ⟨fun h => ⟨h.1, h.2.1, h.2.2⟩, fun h => ⟨h.1, h.2, h.3⟩⟩

/-- One holder, up to the delete. -/
theorem counting_one_holder : ∃ q : SharedDevice (Fin 1) × RefCount (Fin 1),
    q.1.closed = [0] ∧ q.1.deleted = [0] ∧ Implements q.1 q.2 := by
  have hinit : (counted (Fin 1)).init (new, ⟨∅, none⟩) := ⟨rfl, rfl⟩
  have hrun : ((counted (Fin 1)).runWhen (fun q t => Keeps q.1 t) (new, ⟨∅, none⟩) (List.replicate 10 0)).any
      (fun q => q.1.closed = [0] ∧ q.1.deleted = [0]) = true := by decide +kernel
  obtain ⟨q, hq, hp⟩ := Runs.Machine.exists_reachWhen hinit hrun
  obtain ⟨hclosed, hdeleted⟩ := of_decide_eq_true hp
  exact ⟨q, hclosed, hdeleted, (counting_until_unlock (Fin 1)).1 q hq⟩

/-- Holder 1 calls `acquire` before holder 0 releases the last reference, and takes the mutex
after that. -/
def waitingAcquire : List (Fin 2) := 1 :: List.replicate 11 0 ++ List.replicate 10 1

/-- **One holder's release uses the device that it has deleted. An `acquire` that waits for the
mutex goes on, and the device is deleted twice.** -/
theorem uses_deleted_device :
    (∃ q, (counted (Fin 1)).Reach q ∧ q.1.Finished ∧ q.1.deleted = [0] ∧ q.1.stale = 1 ∧ ¬ Implements q.1 q.2) ∧
      ∃ q, (counted (Fin 2)).Reach q ∧ q.1.Finished ∧ q.1.closed = [0, 1] ∧ q.1.deleted = [0, 1] ∧
        ¬ Implements q.1 q.2 := by
  have hinit₁ : (counted (Fin 1)).init (new, ⟨∅, none⟩) := ⟨rfl, rfl⟩
  have hinit₂ : (counted (Fin 2)).init (new, ⟨∅, none⟩) := ⟨rfl, rfl⟩
  have hrun₁ : ((counted (Fin 1)).run (new, ⟨∅, none⟩) (List.replicate 11 0)).any
      (fun q => q.1.Finished ∧ q.1.deleted = [0] ∧ q.1.stale = 1) = true := by decide +kernel
  have hrun₂ : ((counted (Fin 2)).run (new, ⟨∅, none⟩) waitingAcquire).any
      (fun q => q.1.Finished ∧ q.1.closed = [0, 1] ∧ q.1.deleted = [0, 1] ∧ q.1.stale ≠ 0) = true := by decide +kernel
  obtain ⟨q, hq, hp⟩ := Runs.Machine.exists_reach hinit₁ hrun₁
  obtain ⟨hf, hdeleted, hstale⟩ := of_decide_eq_true hp
  obtain ⟨q', hq', hp'⟩ := Runs.Machine.exists_reach hinit₂ hrun₂
  obtain ⟨hf', hclosed', hdeleted', hstale'⟩ := of_decide_eq_true hp'
  refine ⟨⟨q, hq, hf, hdeleted, hstale, fun hi => ?_⟩, q', hq', hf', hclosed', hdeleted', fun hi => hstale' hi.stale⟩
  rw [hi.stale] at hstale
  cases hstale

end SharedDevice

end ServerRoom.Relay
