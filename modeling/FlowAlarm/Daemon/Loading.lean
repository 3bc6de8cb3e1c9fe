import FlowAlarm.Daemon.Runs
import FlowAlarm.Text.JsonSize

/-!
# Whether the outbox can read what it writes

The writer bounds the file by the byte limit of the store, the loader bounds a
line by 8 MiB. `loads_iff`: no run leaves a file that `Open` refuses, exactly
if the byte limit is at most that of a line.
-/

namespace FlowAlarm.Outbox

open FlowAlarm.Text FlowAlarm.Media FlowAlarm.GoJson

/-- A call that finds the file terminated: no fault has left a piece of a line in it. -/
def OnWholeFile (_ : Env) (_ : Option Err) (s : Store) : Prop := Terminated s.disk

/-- `Open` does not fail to decode the file. -/
def Loads (opts : Options) (disk : Bytes) : Prop :=
  ∀ io e, (openStore opts io disk).1 ≠ .error (.load e)

/-- Runs without faults are of this kind. -/
theorem Reached.onWholeFile {opts : Options} {s : Store} (hu : Usable opts)
    (h : Reached opts WithoutFaults s) : Reached opts OnWholeFile s := by
  induction h with
  | opened ho => exact .opened ho
  | called hr hi hok ih =>
    have hinv : Inv opts True False True _ := hr.inv hu (fun _ _ _ _ h => h) (fun hf => hf.elim)
      fun hf => absurd trivial hf
    exact .called ih hi (hinv.terminated trivial)
  | reopened _ ho ih => exact .reopened ih ho

/-! ## Under a small limit -/

theorem shortLines_of_length {disk : Bytes} (h : disk.length ≤ maxLine) : ShortLines disk :=
  fun _ hl => (length_of_mem_rawLines hl).trans h

theorem Reached.loads {opts : Options} {s : Store} (hu : Usable opts)
    (hlimit : byteLimit opts ≤ maxLine) (h : Reached opts OnWholeFile s) : Loads opts s.disk := by
  have hinv : Inv opts False False True s := h.inv hu (fun hf => hf.elim) (fun hf => hf.elim)
    fun _ _ _ _ hok => hok
  obtain ⟨m, left, hf, -⟩ := hinv.filed
  rw [hinv.under.deviceID] at hf
  have hfit : s.disk.length ≤ byteLimit opts := hinv.under.maxBytes ▸ hinv.sound.fits
  intro io e
  obtain ⟨tail, hopen⟩ :=
    openStore_finds io hu hf (shortLines_of_length (hfit.trans hlimit)) hfit
  rw [hopen]
  simp

/-! ## Above it -/

/-- A START whose reason takes `n` bytes. -/
def longEvent (n : Nat) : AnalyticsEvent :=
  { AnalyticsEvent.zero with
    contractVersion := 1
    eventID := ascii "e"
    channelID := ascii "c"
    phase := eventPhaseStart
    eventSeq := 1
    reason := List.replicate n 0x78 }

/-- The entry that records it. -/
def longEntry (deviceID : Bytes) (n : Nat) : JournalEntry :=
  eventEntry (newRecord deviceID (longEvent n) 1 .ignored 0 false) deviceID 1

theorem length_entryText (e : JournalEntry) :
    (entryText e).length =
      1 + max 1 ((entryMembers { e with version := journalVersion }).map (memberSize escape)).sum :=
  length_print_obj escape _

theorem length_longEvent (n : Nat) :
    (marshal (eventValue (longEvent n))).length = (marshal (eventValue (longEvent 0))).length + n := by
  have hsafe : htmlSafe 0x78 = true := rfl
  have hesc : ∀ n, (escape (List.replicate n 0x78)).length = n := fun n => by
    rw [escape_replicate (by decide) hsafe, List.length_replicate]
  simp only [marshal, eventValue, length_print_obj, eventMembers, longEvent, List.map_cons,
    List.sum_cons, memberSize, length_print_str, hesc]
  omega

theorem memberSize_str_le (zero : Bool) (name s : Bytes) :
    memberSize escape (omitEmpty zero name (.str s)) ≤ 6 * (name.length + s.length) + 6 := by
  have hname := length_escape_le name
  have hs := length_escape_le s
  cases zero with
  | true => exact Nat.zero_le _
  | false =>
    simp only [omitEmpty, Bool.false_eq_true, if_false, memberSize, length_quoted, length_print_str]
    omega

theorem memberSize_event (event : AnalyticsEvent) (name : Bytes) :
    memberSize escape (omitEmpty (some event).isNone name (eventValue ((some event).getD .zero))) =
      (quoted escape name).length + (marshal (eventValue event)).length + 2 := rfl

/-- What the device takes of an entry, in two members. -/
def deviceSize (deviceID : Bytes) : Nat :=
  memberSize escape (omitEmpty (deviceID == []) (ascii "device_id") (.str deviceID)) +
    memberSize escape (omitEmpty (keyOf deviceID (longEvent 0) == []) (ascii "key")
      (.str (keyOf deviceID (longEvent 0))))

/-- The length of the entry: two members depend on the device, one on the reason. -/
theorem length_longEntry (deviceID : Bytes) (n : Nat) :
    (entryText (longEntry deviceID n)).length + deviceSize [] =
      (entryText (longEntry [] 0)).length + deviceSize deviceID + n := by
  have h := length_longEvent n
  have hkey : ∀ n, keyOf deviceID (longEvent n) = keyOf deviceID (longEvent 0) := fun _ => rfl
  have hevidence : ∀ n, newEvidence (longEvent n) false = (.disabled, []) := fun _ => rfl
  simp only [deviceSize, length_entryText, entryMembers, List.map_cons, List.sum_cons, longEntry,
    eventEntry, newRecord, hkey n, hevidence, memberSize_event]
  rw [show memberSize escape (some (ascii "v", intValue journalVersion)) = 6 from rfl]
  omega

theorem deviceSize_le {deviceID : Bytes} (h : deviceID.length = 20) : deviceSize deviceID ≤ 600 := by
  have hkey : (keyOf deviceID (longEvent 0)).length = (encode64 deviceID).length + 16 := by
    rw [keyOf, List.length_append]
    rfl
  have h64 := length_encode64_le deviceID
  have hdevice := memberSize_str_le (deviceID == []) (ascii "device_id") deviceID
  have hmember := memberSize_str_le (keyOf deviceID (longEvent 0) == []) (ascii "key")
    (keyOf deviceID (longEvent 0))
  rw [show (ascii "device_id").length = 9 from rfl] at hdevice
  rw [show (ascii "key").length = 3 from rfl] at hmember
  rw [deviceSize]
  omega

/-- An event whose line is one byte too long. -/
theorem exists_longEntry {deviceID : Bytes} (h : deviceID.length = 20) :
    ∃ n, (encodeEntry (longEntry deviceID n)).length = maxLine + 1 := by
  have hbase : (entryText (longEntry [] 0)).length ≤ 1000 := by decide +kernel
  have hdev := deviceSize_le h
  have hzero := length_longEntry deviceID 0
  have hmax : maxLine = 8388608 := rfl
  refine ⟨maxLine - (entryText (longEntry deviceID 0)).length, ?_⟩
  have hlen := length_longEntry deviceID (maxLine - (entryText (longEntry deviceID 0)).length)
  rw [encodeEntry, List.length_append, List.length_singleton]
  omega

theorem longEvent_portable (n : Nat) : Portable (longEvent n) := by
  have hreason : sanitize (List.replicate n 0x78) = List.replicate n 0x78 :=
    sanitize_eq_self.mpr (validUtf8_ascii fun b hb => by
      rw [List.eq_of_mem_replicate hb]
      decide)
  refine ⟨?_, ?_⟩
  · constructor <;> first | decide | simp [longEvent, AnalyticsEvent.zero]
  · show { longEvent n with reason := sanitize (List.replicate n 0x78) } = longEvent n
    rw [hreason]
    rfl

/-- The first record of a store is appended if its line fits. -/
theorem enqueue_longEvent {opts : Options} (hu : Usable opts) {n : Nat}
    (hfit : (encodeEntry (longEntry opts.deviceID n)).length ≤ byteLimit opts) :
    (enqueueWithEvidence .good (longEvent n) 1 false false (newStore opts)).2.disk =
      encodeEntry (longEntry opts.deviceID n) := by
  have hvalid : validateEvent opts.deviceID (longEvent n) = none := by
    rw [validateEvent, if_neg hu.device]
    rfl
  have hroom : ¬ (newStore opts).maxRecords ≤ (newStore opts).records.length := by
    have hpos : 0 < recordLimit opts := by
      have := hu.maxRecords
      rw [recordLimit]
      split
      · decide
      · omega
    exact not_le.mpr hpos
  have hmake : makeRoom .good (longEvent n) (newStore opts) = (none, newStore opts) := if_neg hroom
  have hle : ¬ (newStore opts).maxBytes < (newStore opts).disk.length +
      (encodeEntry (longEntry opts.deviceID n)).length := by
    rw [show (newStore opts).disk.length = 0 from rfl, Nat.zero_add]
    exact not_lt.mpr hfit
  have happ : appendLocked .good (longEntry opts.deviceID n) (newStore opts) =
      (none, { newStore opts with disk := encodeEntry (longEntry opts.deviceID n) }) := by
    rw [appendLocked, if_neg (by simp [newStore, freshStore])]
    exact (if_neg (by simp [Io.good])).trans (if_neg hle)
  have hrec : appendRecord .good (newRecord opts.deviceID (longEvent n) 1 .ignored 0 false)
      (newStore opts) =
        (none, { newStore opts with disk := encodeEntry (longEntry opts.deviceID n) }) := by
    rw [appendRecord]
    simp only [show Env.good.io 1 = .good from rfl,
      show eventEntry (newRecord opts.deviceID (longEvent n) 1 .ignored 0 false)
        (newStore opts).deviceID (newStore opts).nextAlarmSN = longEntry opts.deviceID n from rfl,
      happ]
  rw [enqueueWithEvidence, if_neg (by simp [newStore, freshStore])]
  simp only [show (newStore opts).deviceID = opts.deviceID from rfl, hvalid,
    show lookup (keyOf opts.deviceID (longEvent n)) (newStore opts).records = none from rfl, hmake,
    show scheduleAlarm false (newStore opts) = (.ignored, 0, newStore opts) from rfl, hrec]
  rfl

/-- Above a limit of 8 MiB, a long line is written and then refused. -/
theorem longEvent_refused {opts : Options} {n : Nat} (hu : Usable opts)
    (hlimit : maxLine < byteLimit opts)
    (hn : (encodeEntry (longEntry opts.deviceID n)).length = maxLine + 1) :
    Reached opts OnWholeFile
      (Call.run .good (.enqueue (longEvent n) 1 false false) (newStore opts)).2 ∧
    (openStore opts .done
      (Call.run .good (.enqueue (longEvent n) 1 false false) (newStore opts)).2.disk).1 =
        .error (.load (.tooLong 1)) := by
  refine ⟨.called (reached_newStore hu) ⟨longEvent_portable n, by decide⟩ (.inl rfl), ?_⟩
  have hdisk : (Call.run .good (.enqueue (longEvent n) 1 false false) (newStore opts)).2.disk =
      encodeEntry (longEntry opts.deviceID n) := enqueue_longEvent hu (by omega)
  rw [hdisk]
  exact openStore_tooLong hu (by omega)

/-- **Everything the outbox writes it can load, exactly under a byte limit of at most 8 MiB.** -/
theorem loads_iff {opts : Options} (hu : Usable opts) (hlen : opts.deviceID.length = 20) :
    (∀ s, Reached opts OnWholeFile s → Loads opts s.disk) ↔ byteLimit opts ≤ maxLine := by
  refine ⟨fun h => ?_, fun h s hs => hs.loads hu h⟩
  by_contra hlt
  obtain ⟨n, hn⟩ := exists_longEntry hlen
  obtain ⟨hreach, hopen⟩ := longEvent_refused hu (not_le.mp hlt) hn
  exact h _ hreach .done (.tooLong 1) hopen

def smallOptions : Options := { demoOptions with maxBytes := 4096 }

theorem smallOptions_usable : Usable smallOptions :=
  { demoOptions_usable with maxBytes := by decide }

theorem loads_iff_small : byteLimit smallOptions ≤ maxLine ∧
    ∀ s, Reached smallOptions OnWholeFile s → Loads smallOptions s.disk :=
  ⟨by decide, (loads_iff smallOptions_usable (by decide)).mpr (by decide)⟩

theorem length_demoEntry (n : Nat) :
    (encodeEntry (longEntry demoOptions.deviceID n)).length = n + 601 := by
  have hbase : (encodeEntry (longEntry demoOptions.deviceID 0)).length = 601 := by decide +kernel
  have hlen := length_longEntry demoOptions.deviceID n
  have hzero := length_longEntry demoOptions.deviceID 0
  rw [encodeEntry, List.length_append, List.length_singleton] at hbase ⊢
  omega

/-- Under the default limit of 16 MiB, a START with a long reason leaves a file that `Open`
refuses. -/
theorem long_line_refused :
    Reached demoOptions OnWholeFile
      (Call.run .good (.enqueue (longEvent 8388008) 1 false false) (newStore demoOptions)).2 ∧
    (openStore demoOptions .done
      (Call.run .good (.enqueue (longEvent 8388008) 1 false false) (newStore demoOptions)).2.disk).1 =
        .error (.load (.tooLong 1)) :=
  longEvent_refused demoOptions_usable (by decide) (by rw [length_demoEntry]; decide)

end FlowAlarm.Outbox
