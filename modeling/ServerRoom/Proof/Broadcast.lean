import ServerRoom.Lib.Rounds
import ServerRoom.Proof.Membership
import ServerRoom.Proof.Queue

/-!
# Broadcasts deliver once, and in order

The broadcasts of one receiver are rounds: each works through its own copy of the registry
before the next one starts. `Progress` relates where a receiver stands to the rounds of its
history; `numbersFrom d` are the rounds of `d` that have reached a buffer.

* `ReceiverPc.Step.progress`: what a receiver's step does to its rounds.
* `Rounded.step`: steps of other threads leave them alone.
* `relay_delivery`: in runs that touch no deleted device, buffers are queues, a broadcast
  that has returned is appended once for each device of its copy, its sender included, and
  for no other, and a recipient gets the messages of a sender in their order.
-/

namespace ServerRoom.Relay

open Rounds

variable {C : Crypto} {s s' : Server} {a : Action} {H : History} {ev : Option Event} {σ : Stmt} {d : ℕ}

/-- The number of a message among those of `d`. -/
def Entry.numberFrom (d : ℕ) (x : Entry) : Option ℕ := x.origin.bind fun o => if o.1 = d then some o.2 else none

/-- The rounds of `d` that have reached `r`. -/
def History.numbersFrom (H : History) (d r : ℕ) : List ℕ := (H.appended r).filterMap (Entry.numberFrom d)

theorem numberFrom_eq_some {x : Entry} {k : ℕ} : x.numberFrom d = some k ↔ x.origin = some (d, k) := by
  unfold Entry.numberFrom
  cases ho : x.origin with
  | none => simp
  | some o =>
    obtain ⟨e, j⟩ := o
    simp only [Option.bind_some, Option.ite_none_right_eq_some, Option.some.injEq, Prod.mk.injEq]

/-! ## One receiver -/

/-- The message that a receiver is broadcasting. -/
def ReceiverPc.casting : ReceiverPc → Option NetworkMessage
  | .castLock m | .castCopy m _ _ | .castNext m _ | .castPush m _ _ | .castRelease m _ _
  | .castSignal m _ _ | .castUnlock m _ _ => some m
  | _ => none

/-- Its broadcast has the copy of the registry. -/
def ReceiverPc.copied : ReceiverPc → Bool
  | .castCopy _ _ _ | .castNext _ _ | .castPush _ _ _ | .castRelease _ _ _ | .castSignal _ _ _
  | .castUnlock _ _ _ => true
  | _ => false

/-- The devices of the copy that it has not appended to yet. -/
def ReceiverPc.remaining : ReceiverPc → Finset ℕ
  | .castCopy _ todo current => todo ∪ current.toFinset
  | .castNext _ rest | .castRelease _ _ rest | .castSignal _ _ rest | .castUnlock _ _ rest => rest.toFinset
  | .castPush _ r rest => insert r rest.toFinset
  | _ => ∅

/-- No device is twice among them. -/
def ReceiverPc.Tidy : ReceiverPc → Prop
  | .castCopy _ todo current => current.Nodup ∧ ∀ x ∈ current, x ∉ todo
  | .castNext _ rest | .castRelease _ _ rest | .castSignal _ _ rest | .castUnlock _ _ rest => rest.Nodup
  | .castPush _ r rest => (r :: rest).Nodup
  | _ => True

/-- **Where a receiver stands in its rounds.** `accepted` are the messages it has accepted,
`copies` the copies of the registry that it has made, `returned` counts the broadcasts that
are done, and `numbers r` are the rounds that reached `r`. -/
structure Progress (p : ReceiverPc) (accepted : List NetworkMessage) (copies : List (Finset ℕ)) (returned : ℕ)
    (numbers : ℕ → List ℕ) : Prop where
  tidy : p.Tidy
  acceptedLength : accepted.length = returned + p.casting.isSome.toNat
  current : ∀ m, p.casting = some m → accepted[returned]? = some m
  copiesLength : copies.length = returned + p.copied.toNat
  remaining : ∀ r ∈ p.remaining, r ∈ copies[returned]?.getD ∅
  reaches : ∀ r, numbers r = reached copies returned p.remaining r

variable {accepted : List NetworkMessage} {copies : List (Finset ℕ)} {returned : ℕ} {numbers : ℕ → List ℕ}

/-- A step inside a round, or outside of all rounds. -/
theorem Progress.same {p p' : ReceiverPc} (h : Progress p accepted copies returned numbers)
    (ht : p'.Tidy) (hm : p'.casting = p.casting) (hc : p'.copied = p.copied) (hr : p'.remaining = p.remaining) :
    Progress p' accepted copies returned numbers :=
  ⟨ht, by rw [hm]; exact h.acceptedLength, by rw [hm]; exact h.current, by rw [hc]; exact h.copiesLength,
    by rw [hr]; exact h.remaining, by rw [hr]; exact h.reaches⟩

/-- A message is accepted. -/
theorem Progress.accept {m : NetworkMessage} {p : ReceiverPc} (h : Progress p accepted copies returned numbers)
    (hm : p.casting = none) (hc : p.copied = false) (hr : p.remaining = ∅) :
    Progress (.castLock m) (accepted ++ [m]) copies returned numbers := by
  have hlen := h.acceptedLength
  rw [hm] at hlen
  simp only [Option.isSome_none, Bool.toNat_false, Nat.add_zero] at hlen
  refine ⟨trivial, by simp [hlen, ReceiverPc.casting], fun m' hm' => ?_, ?_, fun r hr => ?_, fun r => ?_⟩
  · cases hm'
    simp [← hlen]
  · rw [h.copiesLength, hc]; rfl
  · simp [ReceiverPc.remaining] at hr
  · rw [h.reaches, hr]; rfl

/-- Its broadcast copies the registry. -/
theorem Progress.copy {m : NetworkMessage} (h : Progress (.castLock m) accepted copies returned numbers)
    (set : Finset ℕ) : Progress (.castCopy m set []) accepted (copies ++ [set]) returned numbers := by
  have hlen : copies.length = returned := h.copiesLength
  have hrem : (ReceiverPc.castCopy m set []).remaining = set := by simp [ReceiverPc.remaining]
  refine ⟨⟨List.nodup_nil, by simp⟩, h.acceptedLength, h.current, by simp [hlen, ReceiverPc.copied], fun r hr => ?_,
    fun r => ?_⟩
  · rw [hrem] at hr
    simpa [← hlen] using hr
  · rw [hrem, reached_open hlen]
    exact h.reaches r

/-- The broadcast appends for the next device. -/
theorem Progress.push {m : NetworkMessage} {r : ℕ} {rest : List ℕ}
    (h : Progress (.castPush m r rest) accepted copies returned numbers) :
    Progress (.castRelease m r rest) accepted copies returned
      (fun x => numbers x ++ if r = x then [returned] else []) := by
  obtain ⟨hnot, hnd⟩ := List.nodup_cons.1 h.tidy
  refine ⟨hnd, h.acceptedLength, h.current, h.copiesLength, fun x hx => h.remaining x (Finset.mem_insert_of_mem hx),
    fun x => ?_⟩
  have hr : r ∈ copies[returned]?.getD ∅ := h.remaining r (Finset.mem_insert_self _ _)
  rw [h.reaches x]
  exact (reached_deliver h.copiesLength hr (by simpa [ReceiverPc.remaining] using hnot) x).symm

/-- The broadcast returns. -/
theorem Progress.finish {m : NetworkMessage} (h : Progress (.castNext m []) accepted copies returned numbers) :
    Progress .last accepted copies (returned + 1) numbers := by
  refine ⟨trivial, h.acceptedLength, fun m hm => (nomatch hm), h.copiesLength, fun r hr => ?_, fun r => ?_⟩
  · simp [ReceiverPc.remaining] at hr
  · rw [h.reaches r]
    exact (reached_close copies returned (returned + 1) r).symm

/-- The rounds of `d` that an event adds for `r`. -/
def Event.newNumbers (H : History) (d r : ℕ) (ev : Option Event) : List ℕ :=
  (Event.newAppended H r ev).filterMap (Entry.numberFrom d)

/-- **What a receiver's step does to its rounds.** -/
theorem ReceiverPc.Step.progress {data : DeviceData} {network : UInt32 → Finset ℕ} {p p' : ReceiverPc}
    (h : p.Step C d data network σ ev p') (hp : Progress p accepted copies (H.returned d) numbers) :
    Progress p' (accepted ++ Event.newAccepted d ev) (copies ++ Event.newSnapshots d ev)
      (H.returned d + Event.newReturned d ev) (fun r => numbers r ++ Event.newNumbers H d r ev) := by
  cases h <;> simp only [Event.newAccepted, Event.newSnapshots, Event.newReturned, Event.newNumbers,
    Event.newAppended, List.append_nil, List.filterMap_nil, Nat.add_zero, if_true]
  case accept m hping => exact hp.accept rfl rfl rfl
  case castLock m => exact hp.copy _
  case castPick m todo current r hr =>
    obtain ⟨hnd, hdis⟩ := hp.tidy
    refine hp.same ⟨?_, fun x hx => ?_⟩ rfl rfl ?_
    · refine List.nodup_append.2 ⟨hnd, List.nodup_singleton r, fun x hx y hy he => hdis x hx ?_⟩
      rw [he, List.mem_singleton.1 hy]
      exact hr
    · rcases List.mem_append.1 hx with hx | hx
      · exact fun hm => hdis x hx (Finset.mem_of_mem_erase hm)
      · rw [List.mem_singleton.1 hx]
        exact Finset.notMem_erase r todo
    · ext x
      simp only [ReceiverPc.remaining, Finset.mem_union, Finset.mem_erase, List.mem_toFinset, List.mem_append,
        List.mem_singleton]
      by_cases hx : x = r
      · simp [hx, hr]
      · simp [hx]
  case castCopied m current => exact hp.same hp.tidy.1 rfl rfl (by simp [ReceiverPc.remaining])
  case castReturn m => exact hp.finish
  case castNext m r rest => exact hp.same hp.tidy rfl rfl (by simp [ReceiverPc.remaining])
  case castPush m r rest =>
    have hnew : ∀ x, (if r = x then [(⟨m, some (d, H.returned d)⟩ : Entry)] else []).filterMap
        (Entry.numberFrom d) = if r = x then [H.returned d] else [] := by
      intro x
      split <;> simp [Entry.numberFrom]
    simp only [Option.map_some, hnew]
    exact hp.push
  case castRelease m r rest => exact hp.same hp.tidy rfl rfl rfl
  case castSignal m r rest => exact hp.same hp.tidy rfl rfl rfl
  case castUnlock m r rest => exact hp.same hp.tidy rfl rfl rfl
  all_goals exact hp.same trivial rfl rfl rfl

/-! ## All receivers -/

/-- The rounds of all receivers, and what their messages are. -/
structure Rounded (s : Server) (H : History) : Prop where
  progress : ∀ d, Progress (s.receiver d) (H.accepted d) (H.snapshots d) (H.returned d) (H.numbersFrom d)
  message : ∀ r x d k, x ∈ H.appended r → x.origin = some (d, k) → (H.accepted d)[k]? = some x.message

theorem Rounded.starts (h : s.Starts) : Rounded s .empty where
  progress d := by
    rw [h.receiver]
    exact ⟨trivial, rfl, nofun, rfl, fun r hr => by simp [ReceiverPc.remaining] at hr, fun r => rfl⟩
  message r x d k hx _ := by simp [History.empty] at hx

/-- An event that is none of `d`'s. -/
structure Event.Foreign (d : ℕ) (ev : Option Event) : Prop where
  accepted : Event.newAccepted d ev = []
  snapshots : Event.newSnapshots d ev = []
  returned : Event.newReturned d ev = 0
  numbers : ∀ H r, Event.newNumbers H d r ev = []

theorem Event.Foreign.none : Event.Foreign d none := ⟨rfl, rfl, rfl, fun _ _ => rfl⟩

theorem HandlerPc.Step.foreign {x : ℕ} {st : ConnectionState} {p p' : HandlerPc} (h : p.Step C x st σ ev p') :
    Event.Foreign d ev := by
  rcases h.event with rfl | ⟨m, rfl, -⟩
  · exact .none
  · refine ⟨rfl, rfl, rfl, fun H r => ?_⟩
    simp only [Event.newNumbers, Event.newAppended, Option.map_none]
    split <;> simp [Entry.numberFrom]

theorem SenderPc.Step.foreign {x : ℕ} {data : DeviceData} {p p' : SenderPc} (h : p.Step x data σ ev p') :
    Event.Foreign d ev := by
  rcases h.event with rfl | ⟨m, results, rfl⟩ <;> exact ⟨rfl, rfl, rfl, fun _ _ => rfl⟩

theorem ReceiverPc.Step.foreign {x : ℕ} {data : DeviceData} {network : UInt32 → Finset ℕ} {p p' : ReceiverPc}
    (h : p.Step C x data network σ ev p') (hx : x ≠ d) : Event.Foreign d ev := by
  cases h <;> refine ⟨?_, ?_, ?_, fun H r => ?_⟩ <;>
    simp only [Event.newAccepted, Event.newSnapshots, Event.newReturned, Event.newNumbers, Event.newAppended,
      if_neg hx, List.filterMap_nil, Option.map_some]
  case castPush m r' rest =>
    split <;> simp [Entry.numberFrom, hx]

theorem after_numbersFrom (H : History) (ev : Option Event) (d r : ℕ) :
    (H.after ev).numbersFrom d r = H.numbersFrom d r ++ Event.newNumbers H d r ev := by
  unfold History.numbersFrom Event.newNumbers
  rw [History.after_appended, List.filterMap_append]

/-- **Steps of other threads leave the rounds of `d` alone.** -/
theorem Progress.foreign {p : ReceiverPc}
    (h : Progress p (H.accepted d) (H.snapshots d) (H.returned d) (H.numbersFrom d)) (hev : Event.Foreign d ev) :
    Progress p ((H.after ev).accepted d) ((H.after ev).snapshots d) ((H.after ev).returned d)
      ((H.after ev).numbersFrom d) := by
  have hnum : (H.after ev).numbersFrom d = H.numbersFrom d := by
    funext r
    rw [after_numbersFrom, hev.numbers, List.append_nil]
  rw [hnum, History.after_accepted, History.after_snapshots, History.after_returned, hev.accepted, hev.snapshots,
    hev.returned, List.append_nil, List.append_nil]
  exact h

/-- A message keeps its number. -/
theorem accepted_getElem {k : ℕ} {m : NetworkMessage} (ev : Option Event) (h : (H.accepted d)[k]? = some m) :
    ((H.after ev).accepted d)[k]? = some m := by
  obtain ⟨hlt, -⟩ := List.getElem?_eq_some_iff.1 h
  rw [History.after_accepted, List.getElem?_append_left hlt]
  exact h

/-- A step that appends at most pings. -/
theorem Rounded.of_quiet (h : Rounded s H)
    (hr : ∀ x, s'.receiver x = s.receiver x ∨ s'.receiver x = .acquire ∧ s.receiver x = .absent)
    (hev : ∀ d, Event.Foreign d ev) (hnew : ∀ r, ∀ x ∈ Event.newAppended H r ev, x.origin = none) :
    Rounded s' (H.after ev) := by
  refine ⟨fun d => ?_, fun r x d k hx ho => ?_⟩
  · have hp := (h.progress d).foreign (hev d)
    rcases hr d with he | ⟨he, he'⟩
    · rw [he]; exact hp
    · rw [he'] at hp
      rw [he]
      exact hp.same trivial rfl rfl rfl
  · rw [History.after_appended] at hx
    rcases List.mem_append.1 hx with hx | hx
    · exact accepted_getElem ev (h.message r x d k hx ho)
    · rw [hnew r x hx] at ho
      cases ho

theorem Rounded.step (h : Rounded s H) (hsh : Shape s) (hm : s.Moves C a ev s') : Rounded s' (H.after ev) := by
  have hnone : ∀ r, ∀ x ∈ Event.newAppended H r none, x.origin = none := by
    intro r x hx
    cases hx
  cases hm with
  | accept fd hfd => exact h.of_quiet (fun _ => Or.inl rfl) (fun _ => .none) hnone
  | create fd launched networkId last hm =>
    exact h.of_quiet (fun x => Or.inl (hm.receiver x)) (fun _ => .none) hnone
  | @handler d e σ ev p s' hm =>
    exact h.of_quiet (hm.receiver_or hsh) (fun _ => hm.step.foreign) fun r x hx => hm.step.origin hx
  | sender d e hm =>
    exact h.of_quiet (fun x => Or.inl (hm.receiver x)) (fun _ => hm.step.foreign) fun r x hx => hm.step.origin hx
  | @receiver d e σ ev p s' hm =>
    refine ⟨fun x => ?_, fun r x d' k hx ho => ?_⟩
    · rw [hm.receiver]
      split
      · rename_i hxd
        subst hxd
        have hnum : (H.after ev).numbersFrom x = fun r => H.numbersFrom x r ++ Event.newNumbers H x r ev :=
          funext fun r => after_numbersFrom H ev x r
        rw [hnum, History.after_accepted, History.after_snapshots, History.after_returned]
        exact hm.step.progress (h.progress x)
      · rename_i hxd
        exact (h.progress x).foreign (hm.step.foreign (Ne.symm hxd))
    · rw [History.after_appended] at hx
      rcases List.mem_append.1 hx with hx | hx
      · exact accepted_getElem ev (h.message r x d' k hx ho)
      · -- what is appended is the message of the round that the receiver is in
        obtain ⟨m, rest, hp, -, rfl⟩ := hm.step.appends hx
        cases ho
        exact accepted_getElem ev ((h.progress d).current m (by rw [hp]; rfl))
  | wake d hw => exact h.of_quiet (fun _ => Or.inl rfl) (fun _ => .none) hnone

theorem Rounded.reach {G : Server × History → Action → Prop} (h : (observed C).ReachWhen G (s, H)) : Rounded s H :=
  observed_induct (fun _ => Rounded.starts) (fun _ _ _ _ _ hr hi _ hm => hi.step (Shape.reach hr) hm) h

/-! ## The copies of the registry -/

/-- A broadcaster is in every copy that it makes. -/
def Included (H : History) : Prop := ∀ d, ∀ set ∈ H.snapshots d, d ∈ set

theorem ReceiverPc.Step.copiesNetwork {data : DeviceData} {network : UInt32 → Finset ℕ} {p p' : ReceiverPc}
    (h : p.Step C d data network σ ev p') {set : Finset ℕ} (hs : set ∈ Event.newSnapshots d ev) :
    ∃ m, p = .castLock m ∧ set = network (ntohl m.bytes.networkId) := by
  cases h <;> simp only [Event.newSnapshots, List.not_mem_nil] at hs
  case castLock m => exact ⟨m, rfl, by simpa using hs⟩

theorem Included.step (h : Included H) (hi : Invariants s) (hprov : Provenance s H) (hmem : Members s)
    (hm : s.Moves C a ev s') : Included (H.after ev) := by
  intro d set hs
  rw [History.after_snapshots] at hs
  rcases List.mem_append.1 hs with hs | hs
  · exact h d set hs
  · cases hm with
    | accept fd hfd => cases hs
    | create fd launched networkId last hm => cases hs
    | wake d hw => cases hs
    | handler x e hm => rw [(hm.step.foreign (d := d)).snapshots] at hs; cases hs
    | sender x e hm => rw [(hm.step.foreign (d := d)).snapshots] at hs; cases hs
    | receiver x e hm =>
      by_cases hx : x = d
      · subst hx
        obtain ⟨m, hp, rfl⟩ := hm.step.copiesNetwork hs
        -- it is working, on network 0, and listed
        have hc := hprov.carried x
        have hf := hi.shape.fits x
        rw [hp] at hc hf
        have hw : (s.device x).connectionState = .working := by
          revert hf
          cases (s.device x).connectionState <;> simp [ReceiverPc.fits]
        rw [Verified.networkId_zero hc]
        exact (hmem x hw).2 (by rw [hp]; rfl)
      · rw [(hm.step.foreign hx).snapshots] at hs; cases hs

theorem Included.reach (h : (observed C).ReachWhen (fun p => TouchesLive p.1) (s, H)) : Included H := by
  refine observed_induct (I := fun _ H => Included H) (fun s _ d set hs => ?_)
    (fun s H a s' hr hs hi _ hm => hi.step (.reach hs) (Provenance.reach hr) (Members.reach hr) hm) h
  cases hs

/-- **Relay delivery is exactly-once per copy and FIFO per sender.** In every run whose steps
touch no deleted device:

1. for every device, what was passed to `send_message`, followed by what is unsent in its
   buffer, is what was appended to the buffer, in that order;
2. the `k`-th message accepted from `d`, once its broadcast has returned, has been appended
   exactly once for each device that was in the registry when the broadcast copied it, `d`
   among them, and for no other;
3. what was appended for `r` from one sender are messages that were accepted from it, in the
   order in which they were. -/
theorem relay_delivery (C : Crypto) {s : Server} {H : History}
    (h : (observed C).ReachWhen (fun p => TouchesLive p.1) (s, H)) :
    (∀ r, (H.passed r).map Prod.fst ++ s.unsent r = (H.appended r).map Entry.message) ∧
    (∀ d k, k < H.returned d → ∃ m set, (H.accepted d)[k]? = some m ∧ (H.snapshots d)[k]? = some set ∧ d ∈ set ∧
      ∀ r, (H.appended r).filter (fun x => x.origin = some (d, k)) =
        if r ∈ set then [⟨m, some (d, k)⟩] else []) ∧
    (∀ d r, (H.numbersFrom d r).Pairwise (· < ·) ∧
      ∀ x k, x ∈ H.appended r → x.origin = some (d, k) → (H.accepted d)[k]? = some x.message) := by
  have hround := Rounded.reach h
  refine ⟨(Queued.reach h).order, fun d k hk => ?_, fun d r => ⟨?_, fun x k => hround.message r x d k⟩⟩
  · have hp := hround.progress d
    have hacc := hp.acceptedLength
    have hlen := hp.copiesLength
    obtain ⟨m, hm⟩ : ∃ m, (H.accepted d)[k]? = some m := ⟨_, List.getElem?_eq_getElem (by omega)⟩
    obtain ⟨set, hset⟩ : ∃ set, (H.snapshots d)[k]? = some set := ⟨_, List.getElem?_eq_getElem (by omega)⟩
    refine ⟨m, set, hm, hset, Included.reach h d set (List.mem_of_getElem? hset), fun r => ?_⟩
    have hfilter : (H.appended r).filter (fun x => x.origin = some (d, k)) =
        (H.appended r).filter (fun x => x.numberFrom d = some k) :=
      List.filter_congr fun x _ => decide_eq_decide.2 numberFrom_eq_some.symm
    have hone := filter_eq_of_reached (e := ⟨m, some (d, k)⟩) (hp.reaches r) hk (by omega) fun x hx hn => ?_
    · rw [hfilter, hone, hset]
      rfl
    · -- an entry with this number holds the `k`-th accepted message
      have ho := numberFrom_eq_some.1 hn
      have hmx := hround.message r x d k hx ho
      rw [hm] at hmx
      obtain ⟨xm, xo⟩ := x
      simp only at ho hmx
      rw [ho, Option.some.inj hmx]
  · rw [(hround.progress d).reaches r]
    exact reached_sorted ..

/-- Device 0 has joined and broadcast a message to itself; its sender passes it on. -/
def passedOn : List Action := List.flatten
  [[.accept 4, .create true 0 0], .replicate 3 (.handler 0 {}), .replicate 3 (.sender 0 {}),
    .replicate 3 (.receiver 0 {}), [.receiver 0 { read := some zeroFrame }], .replicate 18 (.receiver 0 {}),
    .replicate 4 (.sender 0 { results := [some 48] })]

theorem relay_delivery_passedOn : ∃ s H, (observed Crypto.zero).ReachWhen (fun p => TouchesLive p.1) (s, H) ∧
    H.returned 0 = 1 ∧ ((H.passed 0).map Prod.fst ++ s.unsent 0 = (H.appended 0).map Entry.message) ∧
    ∃ m, ∃ set : Finset ℕ, (H.accepted 0)[0]? = some m ∧ 0 ∈ set ∧
      (H.appended 0).filter (fun x => x.origin = some (0, 0)) = [⟨m, some (0, 0)⟩] := by
  have hrun : ((observed Crypto.zero).runWhen (fun p => TouchesLive p.1) (Server.fresh, .empty) passedOn).any
      (fun p => p.2.returned 0 = 1 ∧ (p.2.passed 0).length = 1) = true := by decide +kernel
  obtain ⟨⟨s, H⟩, hr, hs⟩ := Runs.Machine.exists_reachWhen (observed_init _ Server.fresh_starts) hrun
  have h1 : H.returned 0 = 1 := (of_decide_eq_true hs).1
  obtain ⟨hqueue, honce, -⟩ := relay_delivery Crypto.zero hr
  obtain ⟨m, set, hm, -, hin, hall⟩ := honce 0 0 (by omega)
  exact ⟨s, H, hr, h1, hqueue 0, m, set, hm, hin, (hall 0).trans (if_pos hin)⟩

end ServerRoom.Relay
