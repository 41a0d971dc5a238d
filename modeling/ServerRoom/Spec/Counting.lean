import Mathlib.Logic.Function.Basic
import ServerRoom.Lib.Runs

/-!
# `acquire` and `release`

`src/server/memory.cpp`, one statement after the other. A device is shared by holders, of any
type `T`, each of which acquires it once and releases it once; they are scheduled in any order.
What is printed is left out.
-/

namespace ServerRoom.Relay

/-- The statement that a holder executes next: of `acquire`, between the calls, of `release`. -/
inductive HolderPc
  | idle
  | acquireLock
  | increment
  | acquireUnlock
  | holding
  | releaseLock
  | decrement
  | test
  | close
  | delete
  | releaseUnlock
  | done
  deriving DecidableEq

/-- The fields of `DeviceData` that the two functions use, who closed the socket and who deleted
the device, how many statements used the device after it was deleted, and where the holders are. -/
structure SharedDevice (T : Type) where
  memoryPointers : UInt32
  itmesMutex : Option T
  closed : List T
  deleted : List T
  stale : ℕ
  pc : T → HolderPc
  /-- The count has returned to zero. -/
  returned : Bool

namespace SharedDevice

variable {T : Type}

/-- A device after its constructor. -/
def new : SharedDevice T := ⟨0, none, [], [], 0, fun _ => .idle, false⟩

/-- A statement uses the device. -/
def touch (s : SharedDevice T) : SharedDevice T :=
  { s with stale := if s.deleted.isEmpty then s.stale else s.stale + 1 }

variable [DecidableEq T]

def goto (s : SharedDevice T) (t : T) (p : HolderPc) : SharedDevice T := { s with pc := Function.update s.pc t p }

/-- `pthread_mutex_lock`: it waits while the mutex is locked. -/
def lock (s : SharedDevice T) (t : T) (p : HolderPc) : SharedDevice T :=
  match s.itmesMutex with
  | none => { s with itmesMutex := some t }.goto t p
  | some _ => s

/-- `pthread_mutex_unlock` -/
def unlock (s : SharedDevice T) (t : T) (p : HolderPc) : SharedDevice T := { s with itmesMutex := none }.goto t p

/-- **A statement of holder `t`.** No `acquire` starts after the count has returned to zero. -/
def step (s : SharedDevice T) (t : T) : Option (SharedDevice T) :=
  match s.pc t with
  | .idle => if s.returned then none else some (s.goto t .acquireLock)
  | .acquireLock => some (s.touch.lock t .increment)
  | .increment => some ({ s.touch with memoryPointers := s.memoryPointers + 1 }.goto t .acquireUnlock)
  | .acquireUnlock => some (s.touch.unlock t .holding)
  | .holding => some (s.goto t .releaseLock)
  | .releaseLock => some (s.touch.lock t .decrement)
  | .decrement =>
    let memoryPointers := s.memoryPointers - 1
    some ({ s.touch with
      memoryPointers := memoryPointers
      returned := s.returned || memoryPointers = 0 }.goto t .test)
  | .test => some (s.touch.goto t (if 0 = s.memoryPointers then .close else .releaseUnlock))
  | .close => some ({ s.touch with closed := s.closed ++ [t] }.goto t .delete)
  | .delete => some ({ s.touch with deleted := s.deleted ++ [t] }.goto t .releaseUnlock)
  | .releaseUnlock => some (s.touch.unlock t .done)
  | .done => none

/-- Every call that was made has returned, and there was one. -/
def Finished (s : SharedDevice T) : Prop := (∀ t, s.pc t = .idle ∨ s.pc t = .done) ∧ ∃ t, s.pc t = .done

end SharedDevice

/-- **The calls of `acquire` and `release`** on one device. -/
def sharedDevice (T : Type) [DecidableEq T] : Runs.Machine (SharedDevice T) T :=
  ⟨fun s => s = .new, SharedDevice.step⟩

end ServerRoom.Relay
