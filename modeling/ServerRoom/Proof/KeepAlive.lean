import Mathlib.Data.List.Chain
import ServerRoom.Lib.Clock
import ServerRoom.Proof.Sending
import ServerRoom.Spec.KeepAlive

/-!
# The connection is kept alive

While the rounds come within `G` ms and `12000 + G < 2 ^ 32`, the 32-bit clock of the code decides as
the real one would:

* `Tracks`: the connection and the two timers of the code are those of the abstract component.
* `keep_alive`: pings and pokes do not stay away for long on a connection that is kept.
* `reconnects_exactly`: when the connection is given up.
-/

namespace ServerRoom

open ByteMem NetworkConnection NetworkReceiver NetworkHandler KeepAlive

variable {C : Crypto} {G first now now' t t₀ t₁ : ℕ} {info : NetworkInfo} {k : KeepAlive} {e : TimedIteration}
  {s s' : KeptAlive}

/-! ## The abstract component -/

namespace KeepAlive

@[simp] theorem lastHeard_connect : (k.connect t₀ t₁).lastHeard = t₁ := by simp [connect, lastHeard]

@[simp] theorem lastPoked_connect : (k.connect t₀ t₁).lastPoked = t₀ := by simp [connect, lastPoked]

@[simp] theorem lastHeard_hear : (k.hear t).lastHeard = t := by simp [hear, lastHeard]

@[simp] theorem lastPoked_hear : (k.hear t).lastPoked = k.lastPoked := rfl

@[simp] theorem lastHeard_poke : (k.poke t).lastHeard = k.lastHeard := rfl

@[simp] theorem lastPoked_poke : (k.poke t).lastPoked = t := by simp [poke, lastPoked]

theorem head_eq_headD {l : List ℕ} {x : ℕ} (h : x ∈ l.head?) : l.headD 0 = x := by
  cases l with
  | nil => cases h
  | cons y l => exact Option.some.inj h

theorem Regular.single (t₀ t₁ : ℕ) : Regular G [t₁] [t₀] := ⟨.singleton t₁, .singleton t₀⟩

theorem Regular.connect (h : ∀ c, Regular G (k.heard c) (k.poked c)) (c : ℕ) :
    Regular G ((k.connect t₀ t₁).heard c) ((k.connect t₀ t₁).poked c) := by
  unfold KeepAlive.connect
  dsimp only
  rw [Function.update_apply, Function.update_apply]
  split
  · exact .single t₀ t₁
  · exact h c

theorem Regular.hear (h : ∀ c, Regular G (k.heard c) (k.poked c)) (hle : k.lastHeard ≤ t)
    (hlate : t ≤ k.lastHeard + patience + G) (c : ℕ) : Regular G ((k.hear t).heard c) ((k.hear t).poked c) := by
  refine ⟨?_, (h c).poked⟩
  unfold KeepAlive.hear
  dsimp only
  rw [Function.update_apply]
  split
  · refine (h k.connection).heard.cons fun x hx => ?_
    have hlast : k.lastHeard = x := head_eq_headD hx
    omega
  · exact (h c).heard

theorem Regular.poke (h : ∀ c, Regular G (k.heard c) (k.poked c)) (hlt : k.lastPoked + period < t)
    (hlate : t ≤ k.lastPoked + period + G) (c : ℕ) : Regular G ((k.poke t).heard c) ((k.poke t).poked c) := by
  refine ⟨(h c).heard, ?_⟩
  unfold KeepAlive.poke
  dsimp only
  rw [Function.update_apply]
  split
  · refine (h k.connection).poked.cons fun x hx => ?_
    have hlast : k.lastPoked = x := head_eq_headD hx
    omega
  · exact (h c).poked

end KeepAlive

/-! ## The timers of the code -/

/-- **The code tracks the abstract component**: between two readings of the clock, where `first` is
the first reading of the iteration before. -/
structure Tracks (G first now : ℕ) (info : NetworkInfo) (k : KeepAlive) : Prop where
  connection : info.client.connection = k.connection
  fromServer : info.lastPokeFromServer = millis k.lastHeard
  toServer : info.lastPokeToServer = millis k.lastPoked
  le : first ≤ now
  heardLe : k.lastHeard ≤ now
  pokedLe : k.lastPoked ≤ now
  heardGe : first ≤ k.lastHeard + patience
  pokedGe : first ≤ k.lastPoked + period
  regular : ∀ c, Regular G (k.heard c) (k.poked c)

theorem Tracks.mono (h : Tracks G first now info k) (hle : now ≤ now') : Tracks G first now' info k :=
  ⟨h.connection, h.fromServer, h.toServer, h.le.trans hle, h.heardLe.trans hle, h.pokedLe.trans hle, h.heardGe, h.pokedGe,
    h.regular⟩

theorem Tracks.connect (h : Tracks G first now info k) (h0 : now ≤ t₀) (h1 : t₀ ≤ t₁) :
    Tracks G first t₁ (closeAndConnect (millis t₀) (millis t₁) info) (k.connect t₀ t₁) where
  connection := by
    have := h.connection
    simp only [closeAndConnect, KeepAlive.connect]
    omega
  fromServer := by rw [lastHeard_connect]; rfl
  toServer := by rw [lastPoked_connect]; rfl
  le := by have := h.le; omega
  heardLe := by rw [lastHeard_connect]
  pokedLe := by rw [lastPoked_connect]; exact h1
  heardGe := by rw [lastHeard_connect]; have := h.le; omega
  pokedGe := by rw [lastPoked_connect]; have := h.le; omega
  regular := Regular.connect h.regular

/-- **The clock shows when the server was silent for too long**, whether it went round or not. -/
theorem Tracks.silent_iff (h : Tracks G first now info k) (hG : patience + G < 2 ^ 32) (hle : now ≤ t)
    (hlt : t ≤ first + G) : recievePokeTime < millis t - info.lastPokeFromServer ↔ k.lastHeard + patience < t := by
  have hpast : k.lastHeard ≤ t := h.heardLe.trans hle
  have hage := h.heardGe
  have hround : t < k.lastHeard + 2 ^ 32 := by omega
  rw [h.fromServer, millis, millis, Clock.lt_sub_iff hpast hround]
  have hp : recievePokeTime.toNat = patience := rfl
  rw [hp]
  omega

/-- And when it is time for a poke. -/
theorem Tracks.due_iff (h : Tracks G first now info k) (hG : patience + G < 2 ^ 32) (hle : now ≤ t)
    (hlt : t ≤ first + G) : sendPokeTime < millis t - info.lastPokeToServer ↔ k.lastPoked + period < t := by
  have hpast : k.lastPoked ≤ t := h.pokedLe.trans hle
  have hage := h.pokedGe
  have hshort : period ≤ patience := by decide
  have hround : t < k.lastPoked + 2 ^ 32 := by omega
  rw [h.toServer, millis, millis, Clock.lt_sub_iff hpast hround]
  have hp : sendPokeTime.toNat = period := rfl
  rw [hp]
  omega

/-! ## The stages of a round -/

/-- The readings of the clock in an iteration, in order and within `G` of the iteration before. -/
structure Readings (G first now : ℕ) (time : ℕ → ℕ) : Prop where
  start : now ≤ time 0
  mono : ∀ i < 8, time i ≤ time (i + 1)
  last : time 8 ≤ first + G

theorem Readings.le {time : ℕ → ℕ} (h : Readings G first now time) {i j : ℕ} (hij : i ≤ j) (hj : j ≤ 8) :
    time i ≤ time j := by
  induction j, hij using Nat.le_induction with
  | base => exact Nat.le_refl _
  | succ j hij ih =>
    have hstep := h.mono j (by omega)
    have hprev := ih (by omega)
    omega

theorem Readings.bound {time : ℕ → ℕ} (h : Readings G first now time) {i : ℕ} (hi : i ≤ 8) :
    now ≤ time i ∧ time i ≤ first + G := by
  have hfirst := h.le (Nat.zero_le i) hi
  have hlast := h.le hi (Nat.le_refl 8)
  have hstart := h.start
  have hend := h.last
  omega

section Stages

variable {x : Signs} {connected : Bool}

theorem Tracks.reopen (h : Tracks G first now info k) (hr : Readings G first now x.time) :
    Tracks G first (x.time 1) (keepConnection x.connected (millis (x.time 0)) (millis (x.time 1)) info) (k.reopen x) := by
  unfold keepConnection KeepAlive.reopen
  have h01 := hr.mono 0 (by omega)
  cases hc : x.connected with
  | true => exact h.mono (hr.bound (by omega)).1
  | false => exact h.connect hr.start h01

theorem Tracks.watch (h : Tracks G first (x.time 1) info k) (hG : patience + G < 2 ^ 32)
    (hr : Readings G first now x.time) :
    Tracks G first (x.time 4)
        (if millis (x.time 2) - info.lastPokeFromServer > recievePokeTime then
          closeAndConnect (millis (x.time 3)) (millis (x.time 4)) info else info) (k.watch x) ∧
      x.time 2 ≤ (k.watch x).lastHeard + patience := by
  have hsilent := h.silent_iff hG (hr.mono 1 (by omega)) (hr.bound (by omega : 2 ≤ 8)).2
  have h13 := hr.le (by omega : 1 ≤ 3) (by omega)
  have h24 := hr.le (by omega : 2 ≤ 4) (by omega)
  unfold KeepAlive.watch
  by_cases hs : k.lastHeard + patience < x.time 2
  · rw [if_pos hs, if_pos (hsilent.2 hs), lastHeard_connect]
    exact ⟨h.connect h13 (hr.mono 3 (by omega)), by omega⟩
  · rw [if_neg hs, if_neg fun hc => hs (hsilent.1 hc)]
    exact ⟨h.mono (hr.le (by omega) (by omega)), Nat.le_of_not_lt hs⟩

/-- A poke is sent if the link takes all of it. -/
theorem send_poke (info : NetworkInfo) (stack : Packed) (link : Link) :
    (NetworkSender.send C info stack link 0x00 [] 0).1 = decide (link.Sends headerLength) := by
  have hlen := buildMessage_payloadLength (C := C) info stack 0x00 [] 0
  have hsmall : ¬ (0 : UInt8).toNat > maxPayloadLength := by decide
  unfold NetworkSender.send NetworkSender.ethernetSendMessage Link.Sends
  rw [if_neg hsmall, hlen]
  have hzero : (0 : UInt8).toNat + headerLength = headerLength := rfl
  simp only [hzero]
  by_cases hc : link.connected = true
  · have htaken : taken link.write 0 (sendTries * headerLength) = link.takes headerLength := by
      unfold taken Link.takes
      rw [List.range_eq_range']
    have hloop := writeLoop_fst (NetworkSender.buildMessage C info stack 0x00 [] 0) headerLength link.write
      (sendTries * headerLength) 0 0 (Nat.zero_le _)
    rw [htaken] at hloop
    simp only [hc, Bool.not_true, Bool.false_eq_true, if_false, true_and, hloop]
    refine decide_eq_decide.2 ?_
    omega
  · simp [hc]

/-- Sending touches no timer. -/
theorem send_timers (info : NetworkInfo) (stack : Packed) (link : Link) (n : UInt8) (payload : List UInt8)
    (payloadLength : UInt8) :
    (NetworkSender.send C info stack link n payload payloadLength).2.client.connection = info.client.connection ∧
      (NetworkSender.send C info stack link n payload payloadLength).2.lastPokeFromServer = info.lastPokeFromServer ∧
      (NetworkSender.send C info stack link n payload payloadLength).2.lastPokeToServer = info.lastPokeToServer := by
  unfold NetworkSender.send NetworkSender.ethernetSendMessage
  split
  · exact ⟨rfl, rfl, rfl⟩
  · dsimp only
    split <;> exact ⟨rfl, rfl, rfl⟩

theorem Tracks.remind (h : Tracks G first (x.time 4) info k) (hG : patience + G < 2 ^ 32)
    (hr : Readings G first now x.time) (hheard : x.time 2 ≤ k.lastHeard + patience) (stack : Packed) (link : Link)
    (hsends : x.sends = decide (link.Sends headerLength)) :
    Tracks G first (x.time 7)
        (if millis (x.time 5) - info.lastPokeToServer > sendPokeTime then
          match NetworkSender.send C info stack link 0x00 [] 0 with
          | (true, info) => { info with lastPokeToServer := millis (x.time 6) }
          | (false, info) => closeAndConnect (millis (x.time 6)) (millis (x.time 7)) info
        else info) (k.remind x) ∧
      x.time 2 ≤ (k.remind x).lastHeard + patience ∧ x.time 5 ≤ (k.remind x).lastPoked + period := by
  have hdue := h.due_iff hG (hr.mono 4 (by omega)) (hr.bound (by omega : 5 ≤ 8)).2
  have h46 := hr.le (by omega : 4 ≤ 6) (by omega)
  have h27 := hr.le (by omega : 2 ≤ 7) (by omega)
  have h56 : x.time 5 ≤ x.time 6 := hr.mono 5 (by omega)
  have h67 : x.time 6 ≤ x.time 7 := hr.mono 6 (by omega)
  unfold KeepAlive.remind
  by_cases hs : k.lastPoked + period < x.time 5
  · rw [if_pos hs, if_pos (hdue.2 hs), hsends, ← send_poke (C := C) info stack link]
    obtain ⟨hconn, hfrom, hto⟩ := send_timers (C := C) info stack link 0x00 [] 0
    generalize NetworkSender.send C info stack link 0x00 [] 0 = r at hconn hfrom hto
    obtain ⟨sent, info'⟩ := r
    have htracks : Tracks G first (x.time 4) info' k :=
      ⟨hconn.trans h.connection, hfrom.trans h.fromServer, hto.trans h.toServer, h.le, h.heardLe, h.pokedLe, h.heardGe,
        h.pokedGe, h.regular⟩
    cases sent with
    | true =>
      have hfirst := h.le
      have hage := h.pokedGe
      have hlast := (hr.bound (by omega : 6 ≤ 8)).2
      have hlt : k.lastPoked + period < x.time 6 := by omega
      have hlate : x.time 6 ≤ k.lastPoked + period + G := by omega
      refine ⟨?_, hheard, ?_⟩
      · exact
          { connection := htracks.connection
            fromServer := htracks.fromServer
            toServer := by rw [if_pos rfl, lastPoked_poke]
            le := by omega
            heardLe := by rw [if_pos rfl, lastHeard_poke]; exact h.heardLe.trans (h46.trans h67)
            pokedLe := by rw [if_pos rfl, lastPoked_poke]; exact h67
            heardGe := h.heardGe
            pokedGe := by rw [if_pos rfl, lastPoked_poke]; omega
            regular := Regular.poke h.regular hlt hlate }
      · rw [if_pos rfl, lastPoked_poke]
        omega
    | false =>
      rw [if_neg Bool.false_ne_true, lastHeard_connect, lastPoked_connect]
      exact ⟨htracks.connect h46 h67, by omega, by omega⟩
  · rw [if_neg hs, if_neg fun hc => hs (hdue.1 hc)]
    exact ⟨h.mono (h46.trans h67), hheard, Nat.le_of_not_lt hs⟩

end Stages

/-! ## An iteration -/

/-- **The receiver sets its timer exactly when the frame that it processes is a ping.** -/
theorem loop_timers (clock : UInt32) {rx : NetworkReceiver} (info : NetworkInfo) (h : Idle rx) :
    (NetworkReceiver.loop C clock rx info).2.1.lastPokeToServer = info.lastPokeToServer ∧
      (NetworkReceiver.loop C clock rx info).2.1.lastPokeFromServer =
        if (processed rx info).any (Frame.isPing C info) then clock else info.lastPokeFromServer := by
  obtain ⟨-, -, -, ⟨q, hinfo⟩, -, hbuf, hcases⟩ := fill_spec info h
  rcases hcases with ⟨hc, hf⟩ | ⟨hc, -, -⟩
  · obtain ⟨-, hload⟩ := loaded_of_isFrame (m := (fill rx info).rx.receivedMessage) (k := (fill rx info).rx.index)
      (by rw [hbuf]; exact hf)
    have hloop : NetworkReceiver.loop C clock rx info = finish C clock (fill rx info).rx (fill rx info).info := by
      unfold NetworkReceiver.loop
      simp [hc]
    have hproc : processed rx info = some (slice (fill rx info).rx.receivedMessage 0 (fill rx info).rx.index) := by
      unfold processed
      simp [hc]
    have hping := handlePingMessage_eq C (fill rx info).info clock hload
    have hsame : Frame.isPing C (fill rx info).info = Frame.isPing C info := by rw [hinfo]; rfl
    rw [hsame] at hping
    rw [hloop, hproc, Option.any_some]
    unfold finish
    rw [hping]
    cases Frame.isPing C info (slice (fill rx info).rx.receivedMessage 0 (fill rx info).rx.index) with
    | true =>
      dsimp only
      rw [if_pos rfl, if_pos rfl, hinfo]
      exact ⟨rfl, rfl⟩
    | false =>
      -- what follows the test for a ping leaves the timers
      dsimp only
      rw [if_neg Bool.false_ne_true, if_neg Bool.false_ne_true]
      split <;> rw [hinfo] <;> exact ⟨rfl, rfl⟩
  · have hloop : NetworkReceiver.loop C clock rx info = ((fill rx info).rx, (fill rx info).info, []) := by
      unfold NetworkReceiver.loop
      simp [hc]
    have hproc : processed rx info = none := by
      unfold processed
      simp [hc]
    rw [hloop, hproc, Option.any_none, if_neg Bool.false_ne_true, hinfo]
    exact ⟨rfl, rfl⟩

theorem Tracks.keepConnected {h : NetworkHandler} (htr : Tracks G first now h.info k) (hG : patience + G < 2 ^ 32)
    (hr : Readings G first now e.time) :
    let x := e.signs C h
    let k := ((k.reopen x).watch x).remind x
    Tracks G first (e.time 7) (NetworkConnection.keepConnected C e.env.toLoopEnv h.info) k ∧
      e.time 2 ≤ k.lastHeard + patience ∧ e.time 5 ≤ k.lastPoked + period := by
  intro x
  have h1 := htr.reopen (x := x) hr
  obtain ⟨h2, hheard⟩ := h1.watch hG hr
  exact h2.remind hG hr hheard e.stack e.link rfl

/-- What an iteration leaves of the connection and its timers: what the receiver does. -/
theorem iterate_info (h : NetworkHandler) (e : IterEnv) :
    (h.iterate C e).1.info.client.connection = (h.loop C e.toLoopEnv).1.info.client.connection ∧
      (h.iterate C e).1.info.lastPokeFromServer = (h.loop C e.toLoopEnv).1.info.lastPokeFromServer ∧
      (h.iterate C e).1.info.lastPokeToServer = (h.loop C e.toLoopEnv).1.info.lastPokeToServer := by
  have hdrain : (h.iterate C e).1.info = (beforeDrain C h e).info := (drain_spec (beforeDrain C h e)).1
  rw [hdrain]
  unfold beforeDrain
  split
  · exact ⟨rfl, rfl, rfl⟩
  · exact send_timers _ _ _ _ _ _

/-- **One iteration of the code is one round of the abstract component.** -/
theorem Tracks.iterate {h : NetworkHandler} (htr : Tracks G first now h.info k) (hidle : Idle h.receiver)
    (hG : patience + G < 2 ^ 32) (hr : Readings G first now e.time) :
    Tracks G (e.time 0) (e.time 8) (h.iterate C e.env).1.info (k.round (e.signs C h)) := by
  obtain ⟨hkept, hheard, hpoked⟩ := htr.keepConnected (C := C) hG hr
  obtain ⟨hconn, hfrom, hto⟩ := iterate_info (C := C) h e.env
  obtain ⟨hto', hfrom'⟩ := loop_timers (C := C) (millis (e.time 8)) (ready C e.env.toLoopEnv h) hidle
  have hconn' := (loop_client (C := C) (millis (e.time 8)) h.receiver (ready C e.env.toLoopEnv h)).1
  have h78 : e.time 7 ≤ e.time 8 := hr.mono 7 (by omega)
  have h02 := hr.le (by omega : 0 ≤ 2) (by omega)
  have h05 := hr.le (by omega : 0 ≤ 5) (by omega)
  have hlast := hr.last
  have htime : (e.signs C h).time = e.time := rfl
  unfold KeepAlive.round KeepAlive.listen
  generalize (((k.reopen (e.signs C h)).watch (e.signs C h)).remind (e.signs C h)) = k' at hkept hheard hpoked ⊢
  by_cases hp : (e.signs C h).hears = true
  · rw [if_pos hp, htime]
    have hreset := hfrom'.trans (if_pos hp)
    have hage := hkept.heardGe
    have hpast := hkept.heardLe
    have hpoke := hkept.pokedLe
    have hle : k'.lastHeard ≤ e.time 8 := by omega
    have hlate : e.time 8 ≤ k'.lastHeard + patience + G := by omega
    exact
      { connection := hconn.trans (hconn'.trans hkept.connection)
        fromServer := hfrom.trans (hreset.trans (by rw [lastHeard_hear]))
        toServer := hto.trans (hto'.trans hkept.toServer)
        le := hr.le (by omega) (by omega)
        heardLe := by rw [lastHeard_hear]
        pokedLe := hpoke.trans h78
        heardGe := by rw [lastHeard_hear]; exact (hr.le (by omega) (by omega)).trans (Nat.le_add_right _ _)
        pokedGe := h05.trans hpoked
        regular := Regular.hear hkept.regular hle hlate }
  · rw [if_neg hp]
    have hkeep := hfrom'.trans (if_neg hp)
    exact
      { connection := hconn.trans (hconn'.trans hkept.connection)
        fromServer := hfrom.trans (hkeep.trans hkept.fromServer)
        toServer := hto.trans (hto'.trans hkept.toServer)
        le := hr.le (by omega) (by omega)
        heardLe := hkept.heardLe.trans h78
        pokedLe := hkept.pokedLe.trans h78
        heardGe := h02.trans hheard
        pokedGe := h05.trans hpoked
        regular := hkept.regular }

/-! ## Runs -/

theorem Tracks.new (networkId : UInt32) (serverKey networkKey : Key) (h : t₀ ≤ t₁) :
    Tracks G t₀ t₁ (.new networkId serverKey networkKey (millis t₀) (millis t₁)) (.new t₀ t₁) where
  connection := rfl
  fromServer := rfl
  toServer := rfl
  le := h
  heardLe := Nat.le_refl _
  pokedLe := h
  heardGe := h.trans (Nat.le_add_right _ _)
  pokedGe := Nat.le_add_right _ _
  regular c := by
    unfold KeepAlive.new
    dsimp only
    split
    · exact .single t₀ t₁
    · exact ⟨.nil, .nil⟩

/-- What holds in every state of a steady run. -/
structure KeptAlive.Ok (C : Crypto) (G : ℕ) (s : KeptAlive) : Prop where
  tracks : Tracks G s.first s.now s.handler.info s.life
  stream : ∃ info₀ H, StreamOk C info₀ s.handler H
  span : s.life.connection = 0 ∨ s.now ≤ s.first + G

theorem KeptAlive.Steady.readings (h : s.Steady G e) : Readings G s.first s.now e.time := ⟨h.1, h.2.1, h.2.2⟩

theorem KeptAlive.Ok.step (h : s.Ok C G) (hG : patience + G < 2 ^ 32) (he : s.Steady G e) : (s.step C e).Ok C G := by
  obtain ⟨info₀, H, hstream⟩ := h.stream
  have hr := he.readings
  refine ⟨h.tracks.iterate hstream.idle hG hr, ⟨info₀, H.record C s.handler e.env, hstream.iterate C e.env⟩, .inr ?_⟩
  have hfirst := h.tracks.le
  have hstart := hr.start
  have hlast := hr.last
  show e.time 8 ≤ e.time 0 + G
  omega

theorem KeptAlive.Ok.reach (hG : patience + G < 2 ^ 32) (h : (keepingAlive C).ReachWhen (KeptAlive.Steady G) s) :
    s.Ok C G := by
  refine h.induct (fun s hs => ?_) fun s e s' _ hi he hs => ?_
  · obtain ⟨networkId, serverKey, networkKey, t₀, t₁, hle, rfl⟩ := hs
    have hstream := StreamOk.new C networkId serverKey networkKey (millis t₀) (millis t₁)
    exact ⟨Tracks.new networkId serverKey networkKey hle, ⟨_, _, hstream⟩, .inl rfl⟩
  · cases hs
    exact hi.step hG he

/-- **The connection is kept alive.** In a run whose rounds come within `G` ms: on every connection the
pokes are more than 5 s and at most 5 s and `G` apart, the pings at most 12 s and `G`; a connection that
the handler has opened and kept was heard from, and poked, as late as that; and `is_connected` tells
whether the last ping is at most 12 s ago. The clock may go round in between. -/
theorem keep_alive (C : Crypto) (hG : patience + G < 2 ^ 32)
    (h : (keepingAlive C).ReachWhen (KeptAlive.Steady G) s) :
    s.handler.info.client.connection = s.life.connection ∧
      (∀ c, Regular G (s.life.heard c) (s.life.poked c)) ∧
      (0 < s.life.connection → s.now ≤ s.life.lastHeard + patience + G ∧ s.now ≤ s.life.lastPoked + period + G) ∧
      ∀ t, s.now ≤ t → t ≤ s.first + G →
        (isConnected (millis t) s.handler.info = true ↔ t ≤ s.life.lastHeard + patience) := by
  have hok := KeptAlive.Ok.reach hG h
  have htr := hok.tracks
  refine ⟨htr.connection, htr.regular, fun hpos => ?_, fun t hle hlt => ?_⟩
  · have hspan := hok.span.resolve_left (Nat.ne_of_gt hpos)
    have hheard := htr.heardGe
    have hpoked := htr.pokedGe
    constructor <;> omega
  · have hsilent := htr.silent_iff hG hle hlt
    unfold isConnected
    rw [decide_eq_true_iff, ← UInt32.not_lt, hsilent]
    omega

/-- When a round keeps the connection. -/
theorem KeepAlive.round_connection (x : Signs) : (k.round x).connection = k.connection ↔
    x.connected = true ∧ x.time 2 ≤ k.lastHeard + patience ∧
      (x.time 5 ≤ k.lastPoked + period ∨ x.sends = true) := by
  have hlisten : ∀ k : KeepAlive, (k.listen x).connection = k.connection := by
    intro k
    unfold listen
    split <;> rfl
  have hconnect : ∀ (k : KeepAlive) t₀ t₁, (k.connect t₀ t₁).connection = k.connection + 1 := fun _ _ _ => rfl
  have hremind : ∀ k : KeepAlive, k.connection ≤ (k.remind x).connection ∧ ((k.remind x).connection = k.connection ↔
      x.time 5 ≤ k.lastPoked + period ∨ x.sends = true) := by
    intro k
    unfold remind
    by_cases hdue : k.lastPoked + period < x.time 5
    · rw [if_pos hdue]
      cases x.sends with
      | true => exact ⟨Nat.le_refl _, iff_of_true rfl (.inr rfl)⟩
      | false =>
        rw [if_neg Bool.false_ne_true, hconnect]
        exact ⟨Nat.le_succ _, iff_of_false (by omega) (by simp; omega)⟩
    · rw [if_neg hdue]
      exact ⟨Nat.le_refl _, iff_of_true rfl (.inl (Nat.le_of_not_lt hdue))⟩
  have hwatch : ∀ k : KeepAlive, k.connection ≤ (k.watch x).connection := by
    intro k
    unfold watch
    split
    · rw [hconnect]
      omega
    · exact Nat.le_refl _
  unfold KeepAlive.round
  rw [hlisten]
  cases hc : x.connected with
  | false =>
    have hre : (k.reopen x).connection = k.connection + 1 := by
      unfold reopen
      rw [hc, if_neg Bool.false_ne_true, hconnect]
    have h1 := hwatch (k.reopen x)
    have h2 := (hremind ((k.reopen x).watch x)).1
    exact iff_of_false (by omega) (by simp)
  | true =>
    have hre : k.reopen x = k := by
      unfold reopen
      rw [hc, if_pos rfl]
    rw [hre]
    by_cases hs : k.lastHeard + patience < x.time 2
    · have hw : (k.watch x).connection = k.connection + 1 := by
        unfold watch
        rw [if_pos hs, hconnect]
      have h2 := (hremind (k.watch x)).1
      exact iff_of_false (by omega) (by omega)
    · have hw : k.watch x = k := if_neg hs
      rw [hw, (hremind k).2]
      have hheard := Nat.le_of_not_lt hs
      simp [hheard]

/-- **When the connection is given up.** In an iteration of a steady run the connection is kept exactly
if the client is connected, the last ping is at most 12 s ago, and a poke is not due or is sent. A poke is
attempted exactly if the last one on the connection that the iteration has then is more than 5 s ago; a
connection that it has just opened counts as poked when it was opened. -/
theorem reconnects_exactly (C : Crypto) (hG : patience + G < 2 ^ 32)
    (h : (keepingAlive C).ReachWhen (KeptAlive.Steady G) s) (he : s.Steady G e) :
    let x := e.signs C s.handler
    ((s.handler.iterate C e.env).1.info.client.connection = s.handler.info.client.connection ↔
        e.connected = true ∧ e.time 2 ≤ s.life.lastHeard + patience ∧
          (e.time 5 ≤ s.life.lastPoked + period ∨ e.link.Sends headerLength)) ∧
      (Pokes e.env.toLoopEnv s.handler.info ↔ ((s.life.reopen x).watch x).lastPoked + period < e.time 5) := by
  intro x
  have hok := KeptAlive.Ok.reach hG h
  have htr := hok.tracks
  constructor
  · have hnext := (hok.step hG he).tracks.connection
    have hsends : x.sends = true ↔ e.link.Sends headerLength := decide_eq_true_iff
    have hround := round_connection (k := s.life) x
    rw [hsends] at hround
    rw [htr.connection]
    exact Iff.trans (Eq.congr_left hnext) hround
  · -- the timers after what is opened before the poke
    have hr := he.readings
    have hopened := htr.reopen (x := x) hr
    obtain ⟨hwatched, -⟩ := hopened.watch hG hr
    exact hwatched.due_iff hG (hr.mono 4 (by omega)) (hr.bound (by omega : 5 ≤ 8)).2

/-- A handler that is constructed 6 s before the clock goes round. -/
def KeptAlive.late : KeptAlive :=
  ⟨.new (.new 0 (Vector.replicate 16 0) (Vector.replicate 16 0) (millis 4294961296) (millis 4294961296)),
    .new 4294961296 4294961296, 4294961296, 4294961296⟩

theorem KeptAlive.late_starts : KeptAlive.late.Starts := ⟨_, _, _, _, _, Nat.le_refl _, rfl⟩

/-- An iteration at one moment, over a link that takes everything, in which nothing arrives. -/
def quietIteration (connected : Bool) (t : ℕ) : TimedIteration where
  connected := connected
  link := ⟨true, fun _ => true⟩
  stack := fun _ => 0
  arrived := []
  report := none
  time := fun _ => t

/-- A connection is opened; 5010 ms later the server is poked, before the clock goes round; after
12090 ms the server has not been heard, and the connection is given up. -/
def silentServer : List TimedIteration :=
  [quietIteration false 4294961306, quietIteration true 4294966316, quietIteration true 4294973396]

theorem keep_alive_silentServer : ∃ s, (keepingAlive Crypto.zero).ReachWhen (KeptAlive.Steady 20000) s ∧
    s.handler.info.client.connection = 2 ∧ s.life.poked 1 = [4294966316, 4294961306] ∧
    Regular 20000 (s.life.heard 1) (s.life.poked 1) := by
  have hrun : ((keepingAlive Crypto.zero).runWhen (KeptAlive.Steady 20000) KeptAlive.late silentServer).any
      (fun s => s.life.connection = 2 ∧ s.life.poked 1 = [4294966316, 4294961306]) = true := by
    decide +kernel
  obtain ⟨s, hr, hs⟩ := Runs.Machine.exists_reachWhen KeptAlive.late_starts hrun
  obtain ⟨hconn, hpoked⟩ := of_decide_eq_true hs
  obtain ⟨hsame, hregular, -⟩ := keep_alive Crypto.zero (by decide) hr
  exact ⟨s, hr, hsame.trans hconn, hpoked, hregular 1⟩

theorem reconnects_exactly_silentServer : ∃ s, (keepingAlive Crypto.zero).ReachWhen (KeptAlive.Steady 20000) s ∧
    s.handler.info.client.connection = 1 ∧
    (s.handler.iterate Crypto.zero (quietIteration true 4294973396).env).1.info.client.connection ≠ 1 := by
  have hrun : ((keepingAlive Crypto.zero).runWhen (KeptAlive.Steady 20000) KeptAlive.late (silentServer.take 2)).any
      (fun s => s.handler.info.client.connection = 1 ∧ s.life.lastHeard = 4294961306 ∧
        s.Steady 20000 (quietIteration true 4294973396)) = true := by
    decide +kernel
  obtain ⟨s, hr, hs⟩ := Runs.Machine.exists_reachWhen KeptAlive.late_starts hrun
  obtain ⟨hconn, hheard, hsteady⟩ := of_decide_eq_true hs
  refine ⟨s, hr, hconn, fun hsame => ?_⟩
  have hkept := ((reconnects_exactly Crypto.zero (by decide) hr hsteady).1.1 (hsame.trans hconn.symm)).2.1
  rw [hheard] at hkept
  exact absurd hkept (by decide)

end ServerRoom
