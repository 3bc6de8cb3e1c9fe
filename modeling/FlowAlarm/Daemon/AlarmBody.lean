import FlowAlarm.Text.XmlEscape
import FlowAlarm.Num.Civil
import FlowAlarm.Daemon.GbXml
import FlowAlarm.Daemon.Entry

/-!
# Alarm bodies

`gbxml.Alarm` with the description and the values that the delivery service puts
into it. `alarm_reads` says what the platform can read from the body: every
value, the parts of the description and the second of the event.
-/

namespace FlowAlarm.GbXml

open FlowAlarm.Text FlowAlarm.Xml

structure AlarmInput where
  sn : Nat
  deviceID : Bytes
  priority : Int
  method : Int
  eventTimeUS : Int
  alarmType : Int
  description : Bytes
  alarmTypeInfo : Bytes

/-- Seconds east of UTC at a second since the epoch. -/
abbrev Zone := Int → Int

/-- An integer in decimal, with zeros up to a width. -/
def appendInt (width : Nat) (z : Int) : Bytes :=
  (if z < 0 then [0x2D] else []) ++
    (List.replicate (width - (dec z.natAbs).length) 0x30 ++ dec z.natAbs)

/-- `2006-01-02T15:04:05`, for a second in local time. -/
def formatTime (sec : Int) : Bytes :=
  let date := Date.ofDays (sec / 86400)
  let time := sec % 86400
  appendInt 4 date.year ++ 0x2D :: appendInt 2 date.month ++ 0x2D :: appendInt 2 date.day ++
    0x54 :: appendInt 2 (time / 3600) ++ 0x3A :: appendInt 2 (time / 60 % 60) ++
    0x3A :: appendInt 2 (time % 60)

def localSecond (zone : Zone) (us : Int) : Int := us / 1000000 + zone (us / 1000000)

def formatAlarmTime (zone : Zone) (eventTimeUS : Int) : Bytes :=
  if eventTimeUS ≤ 0 then [] else formatTime (localSecond zone eventTimeUS)

/-- The elements of `alarmNotify`, as they are marshalled. -/
def alarmFields (zone : Zone) (input : AlarmInput) : List (Bytes × Bytes) :=
  [(ascii "CmdType", ascii "Alarm"),
    (ascii "SN", dec input.sn),
    (ascii "DeviceID", input.deviceID),
    (ascii "AlarmPriority", decInt input.priority),
    (ascii "AlarmMethod", decInt input.method),
    (ascii "AlarmTime", formatAlarmTime zone input.eventTimeUS),
    (ascii "AlarmDescription", input.description),
    (ascii "AlarmType", decInt input.alarmType)] ++
  if input.alarmTypeInfo = [] then [] else [(ascii "AlarmTypeParam", input.alarmTypeInfo)]

/-- The body of an Alarm message. Marshalling such a message does not fail. -/
def Alarm (zone : Zone) (input : AlarmInput) : Bytes :=
  let fields := alarmFields zone input
  declaration ++
    fill (recordTemplate (ascii "Notify") (fields.map (·.1))) (fields.map (·.2))

def defaultAlarmTypes (eventType : Bytes) : Option Int :=
  if eventType = ascii "line_cross" then some 5
  else if eventType = ascii "intrusion" then some 6
  else if eventType = ascii "occupancy" then some 9
  else none

/-! ## Times read back -/

def twoDigits (a b : UInt8) : Int := 10 * digitVal a + digitVal b

/-- The local second that a time text names. -/
def readTime (s : Bytes) : Option Int :=
  match s.drop (s.length - 15) with
  | [0x2D, m1, m2, 0x2D, d1, d2, 0x54, h1, h2, 0x3A, n1, n2, 0x3A, s1, s2] =>
    some (86400 * Date.toDays ⟨decVal (s.take (s.length - 15)), twoDigits m1 m2, twoDigits d1 d2⟩ +
      3600 * twoDigits h1 h2 + 60 * twoDigits n1 n2 + twoDigits s1 s2)
  | _ => none

theorem appendInt_two : ∀ n < 100,
    appendInt 2 (n : Nat) = [digit (n / 10), digit (n % 10)] := by decide +kernel

theorem twoDigits_digit : ∀ n < 100, twoDigits (digit (n / 10)) (digit (n % 10)) = (n : Nat) := by
  decide +kernel

/-- Two digits of a number below a hundred. -/
theorem appendInt_read {z : Int} (h0 : 0 ≤ z) (h1 : z < 100) :
    ∃ a b, appendInt 2 z = [a, b] ∧ twoDigits a b = z := by
  obtain ⟨n, rfl⟩ := Int.eq_ofNat_of_zero_le h0
  have hn : n < 100 := by omega
  exact ⟨_, _, appendInt_two n hn, twoDigits_digit n hn⟩

theorem decVal_zeros (k : Nat) (s : Bytes) : decVal (List.replicate k 0x30 ++ s) = decVal s := by
  induction k with
  | zero => rfl
  | succ k ih =>
    rw [List.replicate_succ, List.cons_append, ← ih]
    simp [decVal, Nat.ofDigits_append, digitVal]

theorem decVal_appendInt (width : Nat) {z : Int} (h : 0 ≤ z) :
    (decVal (appendInt width z) : Int) = z := by
  rw [appendInt, if_neg (by omega), List.nil_append, decVal_zeros, decVal_dec]
  omega

theorem readTime_append (year : Bytes) (m1 m2 d1 d2 h1 h2 n1 n2 s1 s2 : UInt8) :
    readTime (year ++
        [0x2D, m1, m2, 0x2D, d1, d2, 0x54, h1, h2, 0x3A, n1, n2, 0x3A, s1, s2]) =
      some (86400 * Date.toDays ⟨decVal year, twoDigits m1 m2, twoDigits d1 d2⟩ +
        3600 * twoDigits h1 h2 + 60 * twoDigits n1 n2 + twoDigits s1 s2) := by
  have hlen : (year ++
      [0x2D, m1, m2, 0x2D, d1, d2, 0x54, h1, h2, 0x3A, n1, n2, 0x3A, s1, s2]).length - 15 =
      year.length := by
    rw [List.length_append]
    exact Nat.add_sub_cancel _ _
  unfold readTime
  rw [hlen, List.drop_left, List.take_left]
  rfl

/-- **A time text names its second.** -/
theorem readTime_formatTime {sec : Int} (h : -86400 * Date.epochDay ≤ sec) :
    readTime (formatTime sec) = some sec := by
  have hday : -Date.epochDay ≤ sec / 86400 := by omega
  obtain ⟨hm0, hm1, hd0, hd1⟩ := Date.ofDays_bounds (sec / 86400)
  obtain ⟨m1, m2, hm, hmv⟩ := appendInt_read (z := (Date.ofDays (sec / 86400)).month)
    (by omega) (by omega)
  obtain ⟨d1, d2, hd, hdv⟩ := appendInt_read (z := (Date.ofDays (sec / 86400)).day)
    (by omega) (by omega)
  obtain ⟨h1, h2, hh, hhv⟩ := appendInt_read (z := sec % 86400 / 3600) (by omega) (by omega)
  obtain ⟨n1, n2, hn, hnv⟩ := appendInt_read (z := sec % 86400 / 60 % 60) (by omega) (by omega)
  obtain ⟨s1, s2, hs, hsv⟩ := appendInt_read (z := sec % 86400 % 60) (by omega) (by omega)
  have htext : formatTime sec = appendInt 4 (Date.ofDays (sec / 86400)).year ++
      [0x2D, m1, m2, 0x2D, d1, d2, 0x54, h1, h2, 0x3A, n1, n2, 0x3A, s1, s2] := by
    simp only [formatTime, hm, hd, hh, hn, hs, List.append_assoc, List.cons_append,
      List.nil_append]
  have hyear := decVal_appendInt 4 (Date.ofDays_year hday)
  have hdate := Date.toDays_ofDays (sec / 86400)
  rw [htext, readTime_append, hyear, hmv, hdv, hhv, hnv, hsv, hdate]
  refine congrArg some ?_
  omega

/-! ## The body read back -/

theorem legible_digits {s : Bytes} (h : ∀ b ∈ s, isDigit b = true) : legible s = s := by
  have hall : ∀ n < 256, isDigit (UInt8.ofNat n) = true →
      UInt8.ofNat n < 0x80 ∧ isXmlByte (UInt8.ofNat n) = true := by decide +kernel
  refine legible_ascii fun b hb => ?_
  have hof : UInt8.ofNat b.toNat = b := UInt8.ofNat_toNat
  have hbyte := hall b.toNat b.toNat_lt (by rw [hof]; exact h b hb)
  rwa [hof] at hbyte

theorem legible_dec (n : Nat) : legible (dec n) = dec n :=
  legible_digits fun _ hb => isDigit_of_mem_dec hb

theorem legible_minus (s : Bytes) : legible (0x2D :: s) = 0x2D :: legible s :=
  legible_cons (by decide) (by decide) s

theorem legible_decInt (z : Int) : legible (decInt z) = decInt z := by
  unfold decInt
  split
  · rw [legible_minus, legible_dec]
  · exact legible_dec _

theorem appendInt_bytes {width : Nat} {z : Int} :
    ∀ b ∈ appendInt width z, b < 0x80 ∧ isXmlByte b = true := by
  have hdigit : ∀ n < 256, isDigit (UInt8.ofNat n) = true →
      UInt8.ofNat n < 0x80 ∧ isXmlByte (UInt8.ofNat n) = true := by decide +kernel
  intro b hb
  rw [appendInt, List.mem_append, List.mem_append] at hb
  rcases hb with hb | hb | hb
  · split at hb
    · rw [List.mem_singleton.mp hb]
      decide
    · cases hb
  · rw [(List.mem_replicate.mp hb).2]
    decide
  · have hof : UInt8.ofNat b.toNat = b := UInt8.ofNat_toNat
    have hbyte := hdigit b.toNat b.toNat_lt (by rw [hof]; exact isDigit_of_mem_dec hb)
    rwa [hof] at hbyte

theorem legible_formatAlarmTime (zone : Zone) (us : Int) :
    legible (formatAlarmTime zone us) = formatAlarmTime zone us := by
  unfold formatAlarmTime
  split
  · rfl
  · refine legible_ascii fun b hb => ?_
    simp only [formatTime, List.mem_append, List.mem_cons] at hb
    rcases hb with ((((hb | rfl | hb) | rfl | hb) | rfl | hb) | rfl | hb) | rfl | hb
    all_goals first
      | exact appendInt_bytes b hb
      | decide

theorem properName_iff (name : Bytes) (h : name.all isNameByte = true)
    (hs : (name.head?.map isNameStart) = some true) : ProperName name := by
  obtain ⟨b, hb, hstart⟩ := Option.map_eq_some_iff.mp hs
  exact ⟨h, b, hb, hstart⟩

theorem alarmFields_proper (zone : Zone) (input : AlarmInput) :
    ∀ m ∈ alarmFields zone input, ProperName m.1 := by
  intro m hm
  rw [alarmFields, List.mem_append] at hm
  rcases hm with hm | hm
  · simp only [List.mem_cons, List.not_mem_nil, or_false] at hm
    rcases hm with rfl | rfl | rfl | rfl | rfl | rfl | rfl | rfl
    all_goals
      apply properName_iff
      all_goals
        dsimp only
        decide +kernel
  · split at hm
    · cases hm
    · rw [List.mem_singleton.mp hm]
      apply properName_iff
      all_goals
        dsimp only
        decide +kernel

/-- The body of an alarm is a record with its fields. -/
theorem readRecord_Alarm (zone : Zone) (input : AlarmInput) :
    readRecord (Alarm zone input) =
      some (ascii "Notify", (alarmFields zone input).map fun m => (m.1, legible m.2)) :=
  readRecord_fill (properName_iff _ (by decide +kernel) (by decide +kernel))
    (alarmFields_proper zone input) prolog_declaration

end FlowAlarm.GbXml

namespace FlowAlarm.Delivery

open FlowAlarm.Text FlowAlarm.Xml FlowAlarm.GbXml FlowAlarm.Media FlowAlarm.Outbox

/-- What the settings of the service say about Alarm bodies; a missing alarm type is `none`. -/
structure AlarmConfig where
  alarmPriority : Int
  alarmMethod : Int
  alarmTypes : Bytes → Option Int

/-- The settings `New` goes on with. -/
def AlarmConfig.filled (cfg : AlarmConfig) : AlarmConfig where
  alarmPriority := if cfg.alarmPriority ≤ 0 then 4 else cfg.alarmPriority
  alarmMethod := if cfg.alarmMethod ≤ 0 then 5 else cfg.alarmMethod
  alarmTypes eventType := (cfg.alarmTypes eventType).or (defaultAlarmTypes eventType)

def alarmType (cfg : AlarmConfig) (eventType : Bytes) : Int :=
  match cfg.alarmTypes eventType with
  | some t => if 0 < t then t else 9
  | none => 9

/-- `key=value`. -/
def part (p : Bytes × Bytes) : Bytes := p.1 ++ 0x3D :: p.2

/-- The parts of a description. -/
def describeParts (event : AnalyticsEvent) : List (Bytes × Bytes) :=
  [(ascii "contract_version", dec event.contractVersion),
    (ascii "event_id", event.eventID),
    (ascii "phase", event.phase),
    (ascii "reason", event.reason),
    (ascii "clock_state", event.clockState),
    (ascii "event_seq", dec event.eventSeq),
    (ascii "frame_id", dec event.frameID),
    (ascii "stream_epoch", dec event.streamEpoch),
    (ascii "person_count", dec event.personCount),
    (ascii "delta_in", dec event.deltaIn),
    (ascii "delta_out", dec event.deltaOut)] ++
  (if event.sourcePTSValid then [(ascii "source_pts", decInt event.sourcePTS)] else []) ++
  (if event.evidenceID = [] then [] else [(ascii "evidence_id", event.evidenceID)]) ++
  if event.ruleID = [] then [] else [(ascii "rule_id", event.ruleID)]

def describe (event : AnalyticsEvent) : Bytes :=
  [0x3B].intercalate ((describeParts event).map part)

/-- The input of the Alarm message for a record. -/
def alarmInput (cfg : AlarmConfig) (record : Record) : AlarmInput where
  sn := record.alarmSN
  deviceID := record.event.channelID
  priority := cfg.alarmPriority
  method := cfg.alarmMethod
  eventTimeUS := record.event.eventTimeUS
  alarmType := alarmType cfg record.event.eventType
  description := describe record.event
  alarmTypeInfo := record.event.eventType

/-- The body `deliverOne` sends for a record. -/
def alarmBody (cfg : AlarmConfig) (zone : Zone) (record : Record) : Bytes :=
  Alarm zone (alarmInput cfg record)

/-! ## What the platform reads -/

/-- The parts of a description, split at the semicolons and the first equals signs. -/
def readParts (s : Bytes) : List (Bytes × Bytes) :=
  (s.splitOn 0x3B).map fun p => (p.takeWhile (· != 0x3D), (p.dropWhile (· != 0x3D)).drop 1)

/-- No text in the description of an event has a semicolon. -/
def Separable (event : AnalyticsEvent) : Prop :=
  ∀ v ∈ [event.eventID, event.phase, event.reason, event.clockState, event.evidenceID,
    event.ruleID], (0x3B : UInt8) ∉ v

instance (event : AnalyticsEvent) : Decidable (Separable event) :=
  inferInstanceAs (Decidable (∀ v ∈ _, _))

def partKeys : List Bytes :=
  [ascii "contract_version", ascii "event_id", ascii "phase", ascii "reason", ascii "clock_state",
    ascii "event_seq", ascii "frame_id", ascii "stream_epoch", ascii "person_count",
    ascii "delta_in", ascii "delta_out", ascii "source_pts", ascii "evidence_id", ascii "rule_id"]

theorem partKeys_plain : ∀ k ∈ partKeys,
    legible k = k ∧ (0x3B : UInt8) ∉ k ∧ k.all (· != 0x3D) = true := by
  simp only [partKeys, List.forall_mem_cons]
  refine ⟨?_, ?_, ?_, ?_, ?_, ?_, ?_, ?_, ?_, ?_, ?_, ?_, ?_, ?_, fun _ h => nomatch h⟩
  all_goals decide +kernel

theorem decInt_plain (z : Int) : (0x3B : UInt8) ∉ decInt z := by
  have hdec : ∀ n, (0x3B : UInt8) ∉ dec n := fun n hm => absurd (isDigit_of_mem_dec hm) (by decide)
  unfold decInt
  split
  · exact fun hm => (List.mem_cons.mp hm).elim (by decide) (hdec _)
  · exact hdec _

theorem dec_plain (n : Nat) : (0x3B : UInt8) ∉ dec n := fun hm =>
  absurd (isDigit_of_mem_dec hm) (by decide)

/-- Every part has a key of its own list and no semicolon. -/
theorem describeParts_plain {event : AnalyticsEvent} (h : Separable event) :
    ∀ p ∈ describeParts event, p.1 ∈ partKeys ∧ (0x3B : UInt8) ∉ p.2 := by
  simp only [Separable, List.forall_mem_cons] at h
  obtain ⟨hid, hphase, hreason, hclock, hevidence, hrule, -⟩ := h
  have hkey : ∀ i, ∀ k ∈ partKeys[i]?, k ∈ partKeys := fun i k hk => List.mem_of_getElem? hk
  intro p hp
  simp only [describeParts, List.mem_append, List.mem_cons, List.not_mem_nil, or_false] at hp
  rcases hp with ((hp | hp) | hp) | hp
  · rcases hp with rfl | rfl | rfl | rfl | rfl | rfl | rfl | rfl | rfl | rfl | rfl
    · exact ⟨hkey 0 _ rfl, dec_plain _⟩
    · exact ⟨hkey 1 _ rfl, hid⟩
    · exact ⟨hkey 2 _ rfl, hphase⟩
    · exact ⟨hkey 3 _ rfl, hreason⟩
    · exact ⟨hkey 4 _ rfl, hclock⟩
    · exact ⟨hkey 5 _ rfl, dec_plain _⟩
    · exact ⟨hkey 6 _ rfl, dec_plain _⟩
    · exact ⟨hkey 7 _ rfl, dec_plain _⟩
    · exact ⟨hkey 8 _ rfl, dec_plain _⟩
    · exact ⟨hkey 9 _ rfl, dec_plain _⟩
    · exact ⟨hkey 10 _ rfl, dec_plain _⟩
  · split at hp
    · rw [List.mem_singleton.mp hp]
      exact ⟨hkey 11 _ rfl, decInt_plain _⟩
    · cases hp
  · split at hp
    · cases hp
    · rw [List.mem_singleton.mp hp]
      exact ⟨hkey 12 _ rfl, hevidence⟩
  · split at hp
    · cases hp
    · rw [List.mem_singleton.mp hp]
      exact ⟨hkey 13 _ rfl, hrule⟩

theorem legible_part {p : Bytes × Bytes} (h : p.1 ∈ partKeys) :
    legible (part p) = part (p.1, legible p.2) := by
  rw [part, legible_split _ (by decide) (by decide), (partKeys_plain _ h).1]
  rfl

theorem read_part {p : Bytes × Bytes} (h : p.1 ∈ partKeys) :
    ((part p).takeWhile (· != 0x3D), ((part p).dropWhile (· != 0x3D)).drop 1) = p := by
  have hall := List.all_eq_true.mp (partKeys_plain _ h).2.2
  rw [part, List.takeWhile_append_of_pos hall, List.dropWhile_append_of_pos hall]
  simp

theorem legible_intercalate (ps : List Bytes) :
    legible ([0x3B].intercalate ps) = [0x3B].intercalate (ps.map legible) := by
  induction ps with
  | nil => rfl
  | cons a ps ih =>
    cases ps with
    | nil => simp [List.intercalate]
    | cons b ps =>
      rw [List.map_cons, List.map_cons, List.intercalate_cons_cons, List.intercalate_cons_cons,
        ← List.map_cons, ← ih, List.append_assoc, List.append_assoc]
      exact legible_split a (by decide) (by decide) _

/-- **The description of an event names its parts.** -/
theorem readParts_describe {event : AnalyticsEvent} (h : Separable event) :
    readParts (legible (describe event)) =
      (describeParts event).map fun p => (p.1, legible p.2) := by
  have hplain := describeParts_plain h
  have hmap : ((describeParts event).map part).map legible =
      (describeParts event).map fun p => part (p.1, legible p.2) := by
    rw [List.map_map]
    exact List.map_congr_left fun p hp => legible_part (hplain p hp).1
  have hne : ((describeParts event).map fun p => part (p.1, legible p.2)) ≠ [] := by
    simp [describeParts]
  have hsep : ∀ t ∈ (describeParts event).map fun p => part (p.1, legible p.2),
      (0x3B : UInt8) ∉ t := by
    intro t ht
    obtain ⟨p, hp, rfl⟩ := List.mem_map.mp ht
    obtain ⟨hk, hv⟩ := hplain p hp
    rw [part, List.mem_append, List.mem_cons]
    rintro (hm | hm | hm)
    · exact (partKeys_plain _ hk).2.1 hm
    · exact absurd hm (by decide)
    · exact hv (mem_legible (by decide) hm)
  rw [readParts, describe, legible_intercalate, hmap, List.splitOn_intercalate _ hsep hne,
    List.map_map]
  exact List.map_congr_left fun p hp => read_part (p := (p.1, legible p.2)) (hplain p hp).1

/-- **What the platform reads in the body of an alarm**: a document with one element for every
value, in order; the parts of the description, one by one; and the local second of the event. -/
theorem alarm_reads {cfg : AlarmConfig} {zone : Zone} {record : Record}
    (hzone : ∀ s, -86400 < zone s) (hsep : Separable record.event) :
    readRecord (alarmBody cfg zone record) = some (ascii "Notify",
      [(ascii "CmdType", ascii "Alarm"),
        (ascii "SN", dec record.alarmSN),
        (ascii "DeviceID", legible record.event.channelID),
        (ascii "AlarmPriority", decInt cfg.alarmPriority),
        (ascii "AlarmMethod", decInt cfg.alarmMethod),
        (ascii "AlarmTime", formatAlarmTime zone record.event.eventTimeUS),
        (ascii "AlarmDescription", legible (describe record.event)),
        (ascii "AlarmType", decInt (alarmType cfg record.event.eventType))] ++
      if record.event.eventType = [] then []
      else [(ascii "AlarmTypeParam", legible record.event.eventType)]) ∧
    readParts (legible (describe record.event)) =
      ((describeParts record.event).map fun p => (p.1, legible p.2)) ∧
    (0 < record.event.eventTimeUS →
      readTime (formatAlarmTime zone record.event.eventTimeUS) =
        some (localSecond zone record.event.eventTimeUS)) ∧
    (record.event.eventTimeUS ≤ 0 → formatAlarmTime zone record.event.eventTimeUS = []) := by
  refine ⟨?_, readParts_describe hsep, fun ht => ?_, fun ht => if_pos ht⟩
  · have halarm : legible (ascii "Alarm") = ascii "Alarm" := by decide +kernel
    rw [alarmBody, readRecord_Alarm, alarmFields, alarmInput]
    simp only [List.map_append, List.map_cons, List.map_nil, halarm, legible_dec, legible_decInt,
      legible_formatAlarmTime]
    split <;> rfl
  · rw [formatAlarmTime, if_neg (by omega)]
    refine readTime_formatTime ?_
    have := hzone (record.event.eventTimeUS / 1000000)
    rw [localSecond, Date.epochDay]
    omega

def demoAlarm : AlarmConfig where
  alarmPriority := 4
  alarmMethod := 5
  alarmTypes := defaultAlarmTypes

/-- An event whose rule has a name that needs escapes and a byte that is no text. -/
def demoRecord : Record :=
  { Record.zero with
    alarmSN := 17
    event :=
      { AnalyticsEvent.zero with
        eventID := ascii "e&1"
        channelID := ascii "3502"
        eventType := ascii "occupancy"
        phase := eventPhaseStart
        eventTimeUS := 1760000000000000
        ruleID := ascii "<people>" ++ [0xFF] } }

theorem alarm_reads_demo :
    readRecord (alarmBody demoAlarm (fun _ => 28800) demoRecord) = some (ascii "Notify",
      [(ascii "CmdType", ascii "Alarm"),
        (ascii "SN", dec demoRecord.alarmSN),
        (ascii "DeviceID", legible demoRecord.event.channelID),
        (ascii "AlarmPriority", decInt demoAlarm.alarmPriority),
        (ascii "AlarmMethod", decInt demoAlarm.alarmMethod),
        (ascii "AlarmTime", formatAlarmTime (fun _ => 28800) demoRecord.event.eventTimeUS),
        (ascii "AlarmDescription", legible (describe demoRecord.event)),
        (ascii "AlarmType", decInt (alarmType demoAlarm demoRecord.event.eventType))] ++
      if demoRecord.event.eventType = [] then []
      else [(ascii "AlarmTypeParam", legible demoRecord.event.eventType)]) ∧
    readTime (formatAlarmTime (fun _ => 28800) demoRecord.event.eventTimeUS) =
      some (localSecond (fun _ => 28800) demoRecord.event.eventTimeUS) := by
  obtain ⟨hbody, -, htime, -⟩ := @alarm_reads demoAlarm (fun _ => 28800) demoRecord
    (fun _ => by decide) (by decide +kernel)
  exact ⟨hbody, htime (by decide)⟩

end FlowAlarm.Delivery
