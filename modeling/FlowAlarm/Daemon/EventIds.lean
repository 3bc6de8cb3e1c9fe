import FlowAlarm.Codec.EventCodec
import FlowAlarm.Daemon.Steps
import FlowAlarm.Engine.Grammar

/-!
# Event ids over media engine lifetimes

An event id is made of the hash of the channel, the stream epoch and a serial
that every engine starts anew, while the outbox that looks events up by their
ids outlives the engine. `event_ids_iff` says which sequences of lifetimes give
every event an id of its own: those in which no two lifetimes open their `n`-th
event at one epoch and on one channel hash.
-/

namespace FlowAlarm.EventIds

open FlowAlarm.Text FlowAlarm.Trace FlowAlarm.Engine FlowAlarm.Codec FlowAlarm.Media
open FlowAlarm.Outbox

/-- A lifetime of the engine: any calls, then `deinit`, or a crash after some of the records. -/
structure Lifetime where
  config : Option MeAnalyticsConfig
  configVersion : ℕ
  calls : List Engine.Call
  crash : Option ℕ

namespace Lifetime

def records (l : Lifetime) : List MeAnalyticsEvent :=
  match meEventEngineInit l.config l.configVersion with
  | .error _ => []
  | .ok e =>
    match l.crash with
    | none => Engine.records (session e l.calls true).2
    | some n => (Engine.records (session e l.calls false).2).take n

/-- The START records, in order. -/
def starts (l : Lifetime) : List MeAnalyticsEvent := readAs eventReading .opening l.records

theorem run (l : Lifetime) : ∃ s, Run eventReading ⟨0, none⟩ l.records s := by
  unfold records
  cases hinit : meEventEngineInit l.config l.configVersion with
  | error err => exact ⟨_, .nil _⟩
  | ok e =>
    obtain ⟨hw, hlife⟩ := meEventEngineInit_wf hinit
    dsimp only
    cases l.crash with
    | none =>
      obtain ⟨s, hrun, -⟩ := session_run hw l.calls true
      exact ⟨s, hlife ▸ hrun⟩
    | some n =>
      obtain ⟨s, hrun, -⟩ := session_run hw l.calls false
      exact (hlife ▸ hrun).take n

end Lifetime

variable {l l' : Lifetime} {ls : List Lifetime} {n : ℕ} {a b : MeAnalyticsEvent}

/-- The serial of an id is the number of the event in its lifetime. -/
theorem start_id (ha : l.starts[n]? = some a) :
    a.eventId.bytes = eventIdText a.channelId a.streamEpoch (n + 1) := by
  obtain ⟨s, hrun⟩ := l.run
  have hnamed := hrun.opening_named ha
  rwa [Nat.zero_add] at hnamed

/-! ## Ids and places -/

theorem bytes_injective : Function.Injective CStr.bytes
  | ⟨_, _⟩, ⟨_, _⟩, rfl => rfl

/-- Where both lifetimes open an `n`-th event, they do so on channels with different hashes or at
different epochs. -/
def Apart (l l' : Lifetime) : Prop :=
  ∀ (n : ℕ) (a b : MeAnalyticsEvent), l.starts[n]? = some a → l'.starts[n]? = some b →
    channelHash a.channelId.bytes = channelHash b.channelId.bytes → a.streamEpoch ≠ b.streamEpoch

theorem disjoint_iff :
    (l.starts.map (·.eventId)).Disjoint (l'.starts.map (·.eventId)) ↔ Apart l l' := by
  constructor
  · intro hd n a b ha hb hhash hepoch
    have hid : a.eventId = b.eventId := by
      refine bytes_injective ?_
      rw [start_id ha, start_id hb, eventIdText, eventIdText, hhash, hepoch]
    exact hd (List.mem_map_of_mem (List.mem_of_getElem? ha))
      (hid ▸ List.mem_map_of_mem (List.mem_of_getElem? hb))
  · intro hap id ha hb
    obtain ⟨a, hin, rfl⟩ := List.mem_map.mp ha
    obtain ⟨b, hin', hid⟩ := List.mem_map.mp hb
    obtain ⟨i, hi⟩ := List.mem_iff_getElem?.mp hin
    obtain ⟨j, hj⟩ := List.mem_iff_getElem?.mp hin'
    have htext := congrArg CStr.bytes hid
    rw [start_id hi, start_id hj] at htext
    obtain ⟨hhash, hepoch, hn⟩ := eventIdText_inj htext
    obtain rfl : j = i := by omega
    exact hap j a b hi hj hhash.symm hepoch.symm

theorem starts_nodup (l : Lifetime) : (l.starts.map (·.eventId)).Nodup := by
  rw [List.Nodup, List.pairwise_map, List.pairwise_iff_getElem]
  intro i j hi hj hlt hid
  have htext := congrArg CStr.bytes hid
  rw [start_id (List.getElem?_eq_getElem hi), start_id (List.getElem?_eq_getElem hj)] at htext
  have := (eventIdText_inj htext).2.2
  omega

/-- The ids of the END records are ids of START records, in the same order. -/
theorem ids_sublist {k : Kind} (hk : k ≠ .ongoing) (l : Lifetime) :
    ((readAs eventReading k l.records).map (·.eventId)).Sublist (l.starts.map (·.eventId)) := by
  cases k with
  | opening => exact .refl _
  | ongoing => exact absurd rfl hk
  | closing =>
    obtain ⟨s, hrun⟩ := l.run
    have hsub := hrun.closing_sublist.map EventIdentity.eventId
    rw [List.map_map, List.map_append, List.map_map] at hsub
    exact hsub

theorem ids_nodup (h : ls.Pairwise Apart) {k : Kind} (hk : k ≠ .ongoing) :
    ((readAs eventReading k (ls.flatMap Lifetime.records)).map (·.eventId)).Nodup := by
  rw [readAs, List.filter_flatMap, List.map_flatMap, List.nodup_flatMap]
  refine ⟨fun l _ => (starts_nodup l).sublist (ids_sublist hk l), h.imp fun {l l'} hap => ?_⟩
  exact fun id hid hid' =>
    disjoint_iff.mpr hap ((ids_sublist hk l).subset hid) ((ids_sublist hk l').subset hid')

/-! ## What the outbox makes of the ids -/

/-- The daemon's event for a record has its id and its phase. -/
def Carries (r : MeAnalyticsEvent) (x : AnalyticsEvent) : Prop :=
  x.eventID = r.eventId.bytes ∧ x.phase = meEventPhaseName r.phase

/-- An outbox that holds only events of the records before a START or END takes its event for a new
one. -/
def NoneSwallowed (rs : List MeAnalyticsEvent) : Prop :=
  ∀ before r after, rs = before ++ r :: after → r.phase = .start ∨ r.phase = .end_ →
    ∀ (s : Store) (x : AnalyticsEvent),
      (∀ y ∈ s.records, y.key = keyOf s.deviceID y.event ∧ ∃ b ∈ before, Carries b y.event) →
      Carries r x → ∀ env cursor alarm evidence y,
        (enqueueWithEvidence env x cursor alarm evidence s).1 ≠ .ok (y, false)

/-- Only an event whose key is held is answered as a replay. -/
theorem lookup_of_replay {env : Env} {x : AnalyticsEvent} {cursor : ℕ} {alarm evidence : Bool}
    {s : Store} {y : Record}
    (h : (enqueueWithEvidence env x cursor alarm evidence s).1 = .ok (y, false)) :
    lookup (keyOf s.deviceID x) s.records = some y := by
  unfold enqueueWithEvidence at h
  split at h
  · cases h
  split at h
  · cases h
  split at h
  next hlook =>
    cases h
    exact hlook
  split at h
  · cases h
  dsimp only at h
  split at h
  · cases h
  · split at h <;> cases h

theorem phaseName_inj {p q : MeEventPhase} (hq : q = .start ∨ q = .end_)
    (h : meEventPhaseName p = meEventPhaseName q) : p = q := by
  have hall : ∀ name ∈ [ascii "UPDATE", ascii "UNKNOWN"],
      name ≠ ascii "START" ∧ name ≠ ascii "END" := by decide
  have hends : ascii "START" ≠ ascii "END" := by decide
  rcases hq with rfl | rfl
  · cases p with
    | start => rfl
    | end_ => exact absurd h.symm hends
    | update => exact absurd h (hall (ascii "UPDATE") (by simp)).1
    | other code => exact absurd h (hall (ascii "UNKNOWN") (by simp)).1
  · cases p with
    | end_ => rfl
    | start => exact absurd h hends
    | update => exact absurd h (hall (ascii "UPDATE") (by simp)).2
    | other code => exact absurd h (hall (ascii "UNKNOWN") (by simp)).2

theorem noneSwallowed (h : ls.Pairwise Apart) : NoneSwallowed (ls.flatMap Lifetime.records) := by
  intro before r after hsplit hphase s x hs hx env cursor alarm evidence y hreplay
  have hlook := lookup_of_replay hreplay
  obtain ⟨hkey, b, hb, hby⟩ := hs y (Keyed.lookup_mem hlook)
  rw [Keyed.lookup_key hlook, keyOf_eq_iff] at hkey
  obtain ⟨-, -, hid, hname, -⟩ := hkey
  have hids : b.eventId = r.eventId := bytes_injective (hby.1.symm.trans (hid.symm.trans hx.1))
  have hphases : b.phase = r.phase :=
    phaseName_inj hphase (hby.2.symm.trans (hname.symm.trans hx.2))
  obtain ⟨k, hk, hread⟩ : ∃ k, k ≠ Kind.ongoing ∧ eventReading.kind r = some k := by
    rcases hphase with hp | hp
    · exact ⟨.opening, by decide, congrArg phaseKind hp⟩
    · exact ⟨.closing, by decide, congrArg phaseKind hp⟩
  have hread' : eventReading.kind b = some k := (congrArg phaseKind hphases).trans hread
  have hnodup := ids_nodup h hk
  rw [hsplit, readAs, List.filter_append, List.map_append, List.nodup_append] at hnodup
  have hb' : b.eventId ∈ (before.filter fun r => eventReading.kind r = some k).map (·.eventId) :=
    List.mem_map_of_mem (List.mem_filter.mpr ⟨hb, by simp [hread']⟩)
  have hr' : r.eventId ∈ ((r :: after).filter fun r => eventReading.kind r = some k).map
      (·.eventId) :=
    List.mem_map_of_mem (List.mem_filter.mpr ⟨List.mem_cons_self, by simp [hread]⟩)
  exact hnodup.2.2 _ hb' _ hr' hids

/-- **Event ids over lifetimes.** No two START records carry the same id, and no START or END is
taken for a replay of an earlier one, exactly if no two lifetimes open their `n`-th event, for the
same `n`, on channels with the same hash and at the same stream epoch. -/
theorem event_ids_iff (ls : List Lifetime) :
    (((ls.flatMap Lifetime.starts).map (·.eventId)).Nodup ∧
      NoneSwallowed (ls.flatMap Lifetime.records)) ↔ ls.Pairwise Apart := by
  constructor
  · rintro ⟨hnodup, -⟩
    rw [List.map_flatMap, List.nodup_flatMap] at hnodup
    exact hnodup.2.imp disjoint_iff.mp
  · intro h
    refine ⟨?_, noneSwallowed h⟩
    have hids := @ids_nodup ls h .opening (by decide)
    rwa [readAs, List.filter_flatMap] at hids

/-! ### The same visit in two lifetimes -/

/-- One person is seen at epoch 1, and the process ends. -/
def visit (crash : Option ℕ) : Lifetime :=
  ⟨some demoConfig, 1, [.process (some (demoObservation 1 1))], crash⟩

/-- **Two events share an id**: every process counts its epochs and its events from one. -/
theorem event_ids_repeat :
    ¬ ∀ ls : List Lifetime, ((ls.flatMap Lifetime.starts).map (·.eventId)).Nodup ∧
      NoneSwallowed (ls.flatMap Lifetime.records) := by
  intro h
  exact absurd (h [visit none, visit (some 1)]).1 (by decide +kernel)

end FlowAlarm.EventIds
