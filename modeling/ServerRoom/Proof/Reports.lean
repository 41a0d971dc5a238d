import ServerRoom.Lib.Fields
import ServerRoom.Proof.Alarms
import ServerRoom.Proof.Board
import ServerRoom.Proof.Delivery

/-!
# From a sensor to another board

The whole way of an alarm: the sensors of the sketch run as they do alone (`before_sensors`),
the report that has the alarm is one frame on the wire (`report_delivered`), which the relay
server takes and every board of the network delivers, and the payload that they get can be
read back (`readReport_payload`).

* `alarms_delivered`: an alarm that is sampled in an iteration is in a payload that is sent in
  time; if the link takes that payload, the other boards get it and read the alarm in it.
-/

namespace ServerRoom

open ByteMem

variable {V : Type} {C : Crypto} {format : Reading V → String}

/-! ## The payload -/

theorem stringBytes_append (s t : String) : stringBytes (s ++ t) = stringBytes s ++ stringBytes t := by
  simp [stringBytes]

/-- The labels of a report. -/
def Report.labels : List (List UInt8) :=
  [stringBytes ("\x7b" ++ "\"temperature\":"), stringBytes ("," ++ "\"humidity\":"), stringBytes ("," ++ "\"flame\":"),
    stringBytes ("," ++ "\"smoke\":"), stringBytes ("," ++ "\"motion\":")]

/-- What ends a report. -/
def Report.closing : List UInt8 := stringBytes "\x7d"

/-- What can be read in a report. -/
structure ReportText where
  temperature : List UInt8
  humidity : List UInt8
  flame : Bool
  smoke : Bool
  motion : Bool
  deriving DecidableEq

/-- The data of a report, as they can be read. -/
def Report.text (r : Report) : ReportText :=
  ⟨stringBytes r.temperature, stringBytes r.humidity, r.flame, r.smoke, r.motion⟩

/-- A reader of reports. -/
def readReport (l : List UInt8) : Option ReportText :=
  match Fields.parse Report.labels Report.closing l with
  | some [temperature, humidity, flame, smoke, motion] =>
    some ⟨temperature, humidity, flame = stringBytes "1", smoke = stringBytes "1", motion = stringBytes "1"⟩
  | _ => none

/-- The fields of a report. -/
def Report.fields (r : Report) : List (List UInt8) :=
  [stringBytes r.temperature, stringBytes r.humidity, stringBytes (boolString r.flame),
    stringBytes (boolString r.smoke), stringBytes (boolString r.motion)]

theorem Report.payload_eq (r : Report) :
    stringBytes r.payload = Fields.compose (Report.labels.zip r.fields) Report.closing := by
  unfold Report.payload Report.labels Report.fields Report.closing
  simp only [stringBytes_append, List.zip_cons_cons, List.zip_nil_right, Fields.compose, List.append_assoc]

/-- The number of a report has no comma. -/
def Plain (s : String) : Prop := 44 ∉ stringBytes s

instance (s : String) : Decidable (Plain s) := inferInstanceAs (Decidable (¬ _))

/-- **A report can be read back.** -/
theorem readReport_payload {r : Report} (ht : Plain r.temperature) (hh : Plain r.humidity) :
    readReport (stringBytes r.payload) = some r.text := by
  have hbool : ∀ b, 44 ∉ stringBytes (boolString b) ∧ 125 ∉ stringBytes (boolString b) := by decide
  have hone : ∀ b, decide (stringBytes (boolString b) = stringBytes "1") = b := by decide
  have hends : Fields.Ends Report.closing (Report.labels.zip r.fields) :=
    ⟨⟨44, rfl, ht⟩, ⟨44, rfl, hh⟩, ⟨44, rfl, (hbool _).1⟩, ⟨44, rfl, (hbool _).1⟩, ⟨125, rfl, (hbool _).2⟩, trivial⟩
  have hparse := Fields.parse_compose hends
  rw [← r.payload_eq] at hparse
  have hlabels : (Report.labels.zip r.fields).map Prod.fst = Report.labels := rfl
  have hfields : (Report.labels.zip r.fields).map Prod.snd = r.fields := rfl
  rw [hlabels, hfields] at hparse
  unfold readReport
  rw [hparse]
  unfold Report.fields Report.text
  dsimp only
  rw [hone, hone, hone]

/-- A report of short numbers fits into one message. -/
theorem payload_length {r : Report} (ht : (stringBytes r.temperature).length ≤ 90)
    (hh : (stringBytes r.humidity).length ≤ 90) :
    0 < (stringBytes r.payload).length ∧ (stringBytes r.payload).length ≤ 255 := by
  have hbool : ∀ b, (stringBytes (boolString b)).length = 1 := by decide
  have hf := hbool r.flame
  have hs := hbool r.smoke
  have hm := hbool r.motion
  have h1 : (stringBytes ("\x7b" ++ "\"temperature\":")).length = 15 := by decide
  have h2 : (stringBytes ("," ++ "\"humidity\":")).length = 12 := by decide
  have h3 : (stringBytes ("," ++ "\"flame\":")).length = 9 := by decide
  have h4 : (stringBytes ("," ++ "\"smoke\":")).length = 9 := by decide
  have h5 : (stringBytes ("," ++ "\"motion\":")).length = 10 := by decide
  have h6 : (stringBytes "\x7d").length = 1 := by decide
  rw [r.payload_eq]
  simp only [Report.labels, Report.fields, Report.closing, List.zip_cons_cons, List.zip_nil_right, Fields.compose,
    List.length_append]
  omega

/-! ## The report on the wire -/

namespace Board

open NetworkHandler

variable {b : Board V} {L : Log} {e : Env V}

/-- The network handler of the sketch when a report is due. -/
def atReport (C : Crypto) (b : Board V) (e : Env V) : NetworkHandler := (b.networkHandler.loop C e.network).1

/-- What `send` does with a payload that is due. -/
def reported (C : Crypto) (b : Board V) (e : Env V) (payload : String) : Bool × NetworkHandler :=
  (b.atReport C e).send C (sendCall e.stack e.link payload)

/-- A board keeps its identifier and its keys. -/
theorem atReport_network (h : Accounted C b L) (e : Env V) : SameNetwork network (b.atReport C e).info := by
  obtain ⟨hsame, -, -⟩ := h.stream.at_ready C e.network
  obtain ⟨-, ⟨q, t, hinfo⟩, -⟩ := loop_spec C (ready C e.network b.networkHandler) (e.network.millis 8) h.stream.idle
  have hloop : (b.atReport C e).info =
      (NetworkReceiver.loop C (e.network.millis 8) b.networkHandler.receiver (ready C e.network b.networkHandler)).2.1 := rfl
  rw [hloop, hinfo]
  exact ⟨hsame.networkId, hsame.serverKey, hsame.networkKey⟩

/-- **What becomes of a payload that the link takes**: its frame is broadcast unchanged by a relay
server whose check is not disturbed, and every board of the network that reads the frame, in any
pieces, delivers the payload. -/
def Delivers (C : Crypto) (b : Board V) (e : Env V) (payload : String) : Prop :=
  (b.reported C e payload).1 = true →
    ∃ f, (b.reported C e payload).2.info.client.outgoing = (b.atReport C e).info.client.outgoing ++ f ∧
      (∀ bytes : Packed, slice bytes 0 f.length = f →
        Relay.verdict C (Relay.recvd bytes) = .broadcast (Relay.recvd bytes) 0 ∧ (Relay.recvd bytes).wire = f) ∧
      ∀ receiver, SameNetwork network receiver →
        Frame.deliver C receiver f = some (sentMessage 0x20 (stringBytes payload)) ∧
          ∀ rx, AtFrameStart rx receiver → ∀ chunks, (chunks.map (·.2)).flatten = f →
            (NetworkReceiver.feed C (rx, receiver) chunks).1.isReceived = true ∧
              (NetworkReceiver.feed C (rx, receiver) chunks).1.receive.1 = sentMessage 0x20 (stringBytes payload)

theorem report_delivered (h : Accounted C b L) (e : Env V) {payload : String} (hpos : 0 < (stringBytes payload).length)
    (hlen : (stringBytes payload).length ≤ 255) : b.Delivers C e payload := by
  intro hs
  obtain ⟨hid, hserver, hkey⟩ := atReport_network h e
  unfold reported NetworkHandler.send sendCall at hs ⊢
  dsimp only at hs ⊢
  generalize b.atReport C e = h at hid hserver hkey hs ⊢
  have hn : (UInt8.ofNat (stringBytes payload).length).toNat = (stringBytes payload).length :=
    UInt8.toNat_ofNat_of_lt' (Nat.lt_succ_of_le hlen)
  have hsealed := buildMessage_sealed C h.info e.stack 0x20 hn
  have hout := send_writes C h.info e.stack 0x20 e.link hn hs
  generalize NetworkSender.buildMessage C h.info e.stack 0x20 (stringBytes payload) _ = m at hsealed hout
  -- it has a payload, so it does not look like a ping
  have hping : Frame.hasPingMarks (slice m 0 (48 + (stringBytes payload).length)) = false := by
    rw [← Bool.not_eq_true, hsealed.hasPingMarks C (by decide)]
    exact fun hnil => absurd (congrArg List.length hnil.1) (Nat.ne_of_gt hpos)
  refine ⟨_, hout, fun bytes hbytes => ?_, fun receiver hr => ?_⟩
  · have hf : wireFormat.IsFrame (slice m 0 (48 + (stringBytes payload).length)) := (hsealed.loaded C).isFrame
    rw [slice_length] at hbytes
    obtain ⟨hk, -⟩ := loaded_of_isFrame (m := bytes) (by rw [hbytes]; exact hf)
    have hwire : (Relay.recvd bytes).wire = slice m 0 (48 + (stringBytes payload).length) := by
      rw [← hbytes, hk]
      rfl
    have hauth := hsealed.isAuthentic C hid hserver
    refine ⟨?_, hwire⟩
    rw [Relay.verdict_eq, hwire, hauth, hping]
    rfl
  · have hswap : swap32 h.info.networkId = receiver.networkId := by
      rw [hid, hr.networkId]
      exact swap32_zero
    have hnet := hr.networkKey.trans hkey.symm
    refine ⟨by rw [deliver_sealed C hsealed (by decide) hnet hping, if_pos hswap], fun rx hrx chunks hc => ?_⟩
    obtain ⟨h1, h2⟩ := feed_sealed C hsealed (by decide) hnet hrx hping hc
    exact ⟨h1.2 hswap, h2 hswap⟩

/-! ## Alarms -/

section Run

variable (C : Crypto) (format : Reading V → String) (b : Board V) (e : ℕ → Env V)

/-- The board before iteration `n`, from `b` on. -/
def before : ℕ → Board V
  | 0 => b
  | n + 1 => ((before n).loop C format (e n)).1

/-- What the sensors and the report meet in iteration `n`. -/
def sensing (n : ℕ) : Iteration :=
  reporting format ((b.before C format e n).temperatureHumidityHandler.loop (e n).measurement).1 (e n).sensors

/-- **The sensors of the sketch run as they do alone.** -/
theorem before_sensors (n : ℕ) : (b.before C format e n).sensors = b.sensors.before (b.sensing C format e) n := by
  induction n with
  | zero => rfl
  | succ n ih =>
    have hloop : (b.before C format e (n + 1)).sensors =
        ((b.before C format e n).sensors.loop (b.sensing C format e n)).1 := rfl
    rw [hloop, ih]
    rfl

theorem payload_eq (n : ℕ) :
    (b.before C format e n).payload format (e n) = b.sensors.sent (b.sensing C format e) n := by
  have hloop : (b.before C format e n).payload format (e n) =
      ((b.before C format e n).sensors.loop (b.sensing C format e n)).2 := rfl
  rw [hloop, before_sensors]
  rfl

variable {C format b e}

theorem Accounted.before (h : Accounted C b L) (n : ℕ) : ∃ L', Accounted C (b.before C format e n) L' := by
  induction n with
  | zero => exact ⟨L, h⟩
  | succ n ih =>
    obtain ⟨L', h'⟩ := ih
    exact ⟨_, h'.step (e n)⟩

variable (C format b e)

/-- The data that the sketch puts into a report in iteration `n`. -/
def reportAt (n : ℕ) : Report :=
  ((b.before C format e n).sensors.sense (e n).sensors).reportData (b.sensing C format e n)

/-- **Alarms get through.** An alarm that is sampled in iteration `k`, at `seen k`, is in a
payload that is sent before the report is checked 5000 ms later: a reader of the payload gets
back the data that the sketch put in, with the alarm, and if the link takes the payload the boards
of the network get it. -/
def AlarmsDelivered (N : ℕ) (alarm : ℕ → Prop) (seen : ℕ → ℕ) (shows : ReportText → Bool) : Prop :=
  ∀ k n, k ≤ n → n < N → alarm k → seen k + 5000 ≤ (e n).sensors.time 10 →
    ∃ i payload, k ≤ i ∧ i ≤ n ∧ (b.before C format e i).payload format (e i) = some payload ∧
      readReport (stringBytes payload) = some (b.reportAt C format e i).text ∧
      shows (b.reportAt C format e i).text = true ∧ (b.before C format e i).Delivers C (e i) payload

variable {C format b e}

/-- What is reported is delivered. -/
theorem alarmsDelivered_of_reported (h : Accounted C b L) (hplain : ∀ r, Plain (format r))
    (hshort : ∀ r, (stringBytes (format r)).length ≤ 90) {N : ℕ} {alarm : ℕ → Prop} {seen : ℕ → ℕ}
    {flag : Sketch → Bool} {data : Report → Bool} {shows : ReportText → Bool}
    (hshows : ∀ r : Report, shows r.text = data r)
    (hr : b.sensors.AlarmsReported (b.sensing C format e) N alarm seen flag data) :
    b.AlarmsDelivered C format e N alarm seen shows := by
  intro k n hkn hn ha hlate
  obtain ⟨i, hki, hin, hsent, hdata, -⟩ := hr.inTime k n hkn hn ha hlate
  have hbefore : ∃ L', Accounted C (b.before C format e i) L' := h.before i
  obtain ⟨L', hacc⟩ := hbefore
  have hreport : (b.sensors.sensed (b.sensing C format e) i).reportData (b.sensing C format e i) =
      b.reportAt C format e i := by
    unfold reportAt Sketch.sensed
    rw [before_sensors]
    rfl
  rw [hreport] at hsent hdata
  have hlen := payload_length (r := b.reportAt C format e i) (hshort _) (hshort _)
  refine ⟨i, _, hki, Nat.le_of_lt_succ hin, (payload_eq C format b e i).trans hsent,
    readReport_payload (hplain _) (hplain _), (hshows _).trans hdata, ?_⟩
  exact report_delivered hacc (e i) hlen.1 hlen.2

end Run

end Board

/-- **A sampled alarm gets to the other boards.** In every run of the sketch from `setup()` on
in which time does not go back, with numbers that `String` makes short and without a comma: if
the readings of the clock in the same or consecutive rounds are at most 15000 ms apart, each
flame and each smoke that a handler samples is in a payload that is sent within the next 5000 ms
or at the check after them; if they are at most 5000 ms apart, so is each motion. The payload reads
back to the data of the report. If the link takes it, it is broadcast by a relay server whose check
is not disturbed, and delivered by every board of the network, in whatever pieces it arrives. -/
theorem alarms_delivered [Zero V] (C : Crypto) (format : Reading V → String) (boot : Board.Boot)
    (e : ℕ → Board.Env V) (N : ℕ) (hplain : ∀ r, Plain (format r))
    (hshort : ∀ r, (stringBytes (format r)).length ≤ 90) :
    let b : Board V := Board.setup boot
    (b.sensors.Paced (b.sensing C format e) (boot.time 13) 15000 N →
      b.AlarmsDelivered C format e N (b.sensors.Samples (b.sensing C format e) Sketch.flameHandler1 isFlame 1
        Iteration.flame1) (fun n => (e n).sensors.time 3) ReportText.flame ∧
      b.AlarmsDelivered C format e N (b.sensors.Samples (b.sensing C format e) Sketch.flameHandler2 isFlame 4
        Iteration.flame2) (fun n => (e n).sensors.time 6) ReportText.flame ∧
      b.AlarmsDelivered C format e N (b.sensors.Samples (b.sensing C format e) Sketch.smokeHandler isSmoke 7
        Iteration.smoke) (fun n => (e n).sensors.time 9) ReportText.smoke) ∧
      (b.sensors.Paced (b.sensing C format e) (boot.time 13) 5000 N →
        b.AlarmsDelivered C format e N (fun n => (e n).sensors.pir = .high) (fun n => (e n).sensors.time 0)
          ReportText.motion) := by
  intro b
  have hacc : Board.Accounted C b .empty := .setup C boot
  have hs : b.sensors.Starts (boot.time 13) := ⟨rfl, rfl, rfl, rfl, rfl⟩
  have hflame : ∀ r : Report, r.text.flame = r.flame := fun _ => rfl
  have hsmoke : ∀ r : Report, r.text.smoke = r.smoke := fun _ => rfl
  have hmotion : ∀ r : Report, r.text.motion = r.motion := fun _ => rfl
  refine ⟨fun h => ⟨?_, ?_, ?_⟩, fun h => ?_⟩
  · refine Board.alarmsDelivered_of_reported hacc hplain hshort hflame (h.sensor hs (fun _ => rfl) (fun n => ?_)
      (fun n hn t ht => h.sensing hn (by simp [Sketch.sensing, ht])) fun s e hd => ?_)
    · rw [Sketch.before_succ]
    · simp [Sketch.reportData, hd]
  · refine Board.alarmsDelivered_of_reported hacc hplain hshort hflame (h.sensor hs (fun _ => rfl) (fun n => ?_)
      (fun n hn t ht => h.sensing hn (by simp [Sketch.sensing, ht])) fun s e hd => ?_)
    · rw [Sketch.before_succ]
    · simp [Sketch.reportData, hd]
  · refine Board.alarmsDelivered_of_reported hacc hplain hshort hsmoke (h.sensor hs (fun _ => rfl) (fun n => ?_)
      (fun n hn t ht => h.sensing hn (by simp [Sketch.sensing, ht])) fun s e hd => ?_)
    · rw [Sketch.before_succ]
    · exact hd
  · exact Board.alarmsDelivered_of_reported hacc hplain hshort hmotion (h.motion hs)

/-! ## A flame in the first iteration -/

/-- Every three seconds an iteration, at the times of `oneFlame`; the first flame sensor shows a
flame in the first. -/
def flameSeen (n : ℕ) : Board.Env ℕ := { Board.Env.at (1001 + 3000 * (n + 1)) [] with sensors := oneFlame n }

theorem flameSeen_paced :
    (Board.setup Board.boot : Board ℕ).sensors.Paced
      (Board.sensing .zero (fun _ => "0.00") (Board.setup Board.boot) flameSeen) 1001 15000 3 where
  ordered := by decide +kernel
  gap := by decide +kernel

/-- The other boards hear of it by the third iteration. -/
theorem alarms_delivered_flameSeen :
    ∃ i payload, 0 ≤ i ∧ i ≤ 2 ∧
      ((Board.setup Board.boot : Board ℕ).before .zero (fun _ => "0.00") flameSeen i).payload (fun _ => "0.00")
        (flameSeen i) = some payload ∧
      readReport (stringBytes payload) =
        some ((Board.setup Board.boot : Board ℕ).reportAt .zero (fun _ => "0.00") flameSeen i).text ∧
      ((Board.setup Board.boot : Board ℕ).reportAt .zero (fun _ => "0.00") flameSeen i).text.flame = true ∧
      ((Board.setup Board.boot : Board ℕ).before .zero (fun _ => "0.00") flameSeen i).Delivers .zero (flameSeen i)
        payload :=
  ((alarms_delivered .zero (fun _ => "0.00") Board.boot flameSeen 3 (fun _ => by decide) (fun _ => by decide)).1
    flameSeen_paced).1 0 2 (by decide) (by decide) ⟨by decide, by decide⟩ (by decide)

end ServerRoom
