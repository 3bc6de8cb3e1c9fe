import FlowAlarm.Text.JsonTexts
import FlowAlarm.Daemon.Entry
import FlowAlarm.Daemon.Wire

/-!
# Decoded events

What `encoding/json` makes of a line, whatever the line: an event with its
integers in range and its texts in UTF-8. `consumeEvent_portable` is the form
the delivery service gets it in.
-/

namespace FlowAlarm.Outbox

open FlowAlarm.Text FlowAlarm.Media FlowAlarm.GoJson

/-- A tree as Go reads it. -/
abbrev Utf8Texts (v : Json) : Prop := v.Texts fun t => validUtf8 t = true

abbrev Utf8Keeps {σ : Type} (K : σ → Prop) (f : Slot σ) : Prop :=
  f.Keeps (fun t => validUtf8 t = true) K

/-! ## Fields of an event -/

section

variable {name : Bytes}

theorem keeps_text {put : Bytes → AnalyticsEvent → AnalyticsEvent}
    (hclean : ∀ s e, (put s e).clean = put (sanitize s) e.clean)
    (htyped : ∀ s e, WellTyped e → WellTyped (put s e)) :
    Utf8Keeps Portable (scalarField readString name put) := by
  refine keeps_scalar fun v s e hv hs he => ⟨htyped s e he.typed, ?_⟩
  rw [hclean, he.clean, sanitize_eq_self.mpr (readString_texts hv hs)]

theorem keeps_uint {bits : Nat} {put : Nat → AnalyticsEvent → AnalyticsEvent}
    (hclean : ∀ n e, (put n e).clean = put n e.clean)
    (htyped : ∀ n e, n < 2 ^ bits → WellTyped e → WellTyped (put n e)) :
    Utf8Keeps Portable (scalarField (readUint bits) name put) := by
  refine keeps_scalar fun v n e _ hn he => ⟨htyped n e (readUint_lt hn) he.typed, ?_⟩
  rw [hclean, he.clean]

theorem keeps_int {put : Int → AnalyticsEvent → AnalyticsEvent}
    (hclean : ∀ z e, (put z e).clean = put z e.clean)
    (htyped : ∀ z e, -(2 ^ 63 : Int) ≤ z ∧ z < 2 ^ 63 → WellTyped e → WellTyped (put z e)) :
    Utf8Keeps Portable (scalarField (readInt 64) name put) := by
  refine keeps_scalar fun v z e _ hz he => ⟨htyped z e (readInt_range hz) he.typed, ?_⟩
  rw [hclean, he.clean]

end

def TimebaseTyped (t : Timebase) : Prop := t.num < 2 ^ 32 ∧ t.den < 2 ^ 32

theorem timebaseFields_keep : ∀ f ∈ timebaseFields, Utf8Keeps TimebaseTyped f :=
  List.forall_mem_cons.mpr ⟨keeps_scalar fun _ _ _ _ hn ht => ⟨readUint_lt hn, ht.2⟩,
    List.forall_mem_cons.mpr ⟨keeps_scalar fun _ _ _ _ hn ht => ⟨ht.1, readUint_lt hn⟩, by simp⟩⟩

theorem keeps_timebase : Utf8Keeps Portable
    (structField (decodeStruct timebaseFields) (ascii "source_timebase") (·.sourceTimebase)
      fun v e => { e with sourceTimebase := v }) := by
  refine keeps_struct (L := TimebaseTyped)
    (fun _ _ _ hv ht h => decodeStruct_keeps timebaseFields_keep hv ht h)
    (fun e he => ⟨he.typed.timebaseNum, he.typed.timebaseDen⟩) fun t e ht he =>
      ⟨{ he.typed with timebaseNum := ht.1, timebaseDen := ht.2 }, ?_⟩
  exact congrArg (fun x : AnalyticsEvent => { x with sourceTimebase := t }) he.clean

theorem decodeUint_lt {bits old n : Nat} {v : Json} (hold : old < 2 ^ bits)
    (h : decodeUint bits old v = some n) : n < 2 ^ bits := by
  unfold decodeUint at h
  split at h
  · cases h
    exact hold
  · exact readUint_lt h

theorem keeps_trackIDs : Utf8Keeps Portable
    (sliceField (decodeUint 64) 0 (ascii "responsible_track_ids") (·.responsibleTrackIDs)
      fun v e => { e with responsibleTrackIDs := v }) := by
  refine keeps_slice (L := (· < 2 ^ 64)) (fun _ _ _ _ ht h => decodeUint_lt ht h) (by decide)
    (fun e he => he.typed.trackIDs) fun o e ho he => ⟨{ he.typed with trackIDs := ho }, ?_⟩
  exact congrArg (fun x : AnalyticsEvent => { x with responsibleTrackIDs := o }) he.clean

theorem keeps_ptsValid : Utf8Keeps Portable
    (scalarField readBool (ascii "source_pts_valid") fun v e => { e with sourcePTSValid := v }) := by
  refine keeps_scalar fun v b e _ _ he => ⟨{ he.typed with }, ?_⟩
  exact congrArg (fun x : AnalyticsEvent => { x with sourcePTSValid := b }) he.clean

theorem eventFields_keep : ∀ f ∈ eventFields, Utf8Keeps Portable f := by
  simp only [eventFields, List.forall_mem_cons]
  exact ⟨keeps_uint (fun _ _ => rfl) fun _ _ hn h => { h with contractVersion := hn },
    keeps_text (fun _ _ => rfl) fun _ _ h => { h with },
    keeps_text (fun _ _ => rfl) fun _ _ h => { h with },
    keeps_uint (fun _ _ => rfl) fun _ _ hn h => { h with streamEpoch := hn },
    keeps_text (fun _ _ => rfl) fun _ _ h => { h with },
    keeps_text (fun _ _ => rfl) fun _ _ h => { h with },
    keeps_text (fun _ _ => rfl) fun _ _ h => { h with },
    keeps_uint (fun _ _ => rfl) fun _ _ hn h => { h with eventSeq := hn },
    keeps_text (fun _ _ => rfl) fun _ _ h => { h with },
    keeps_int (fun _ _ => rfl) fun _ _ hz h => { h with eventTimeUS := hz },
    keeps_text (fun _ _ => rfl) fun _ _ h => { h with },
    keeps_ptsValid,
    keeps_int (fun _ _ => rfl) fun _ _ hz h => { h with sourcePTS := hz },
    keeps_timebase,
    keeps_uint (fun _ _ => rfl) fun _ _ hn h => { h with frameID := hn },
    keeps_uint (fun _ _ => rfl) fun _ _ hn h => { h with personCount := hn },
    keeps_uint (fun _ _ => rfl) fun _ _ hn h => { h with deltaIn := hn },
    keeps_uint (fun _ _ => rfl) fun _ _ hn h => { h with deltaOut := hn },
    keeps_uint (fun _ _ => rfl) fun _ _ hn h => { h with configVersion := hn },
    keeps_text (fun _ _ => rfl) fun _ _ h => { h with },
    keeps_uint (fun _ _ => rfl) fun _ _ hn h => { h with trackCount := hn },
    keeps_trackIDs, by simp⟩

theorem portable_zero : Portable AnalyticsEvent.zero := by
  refine ⟨?_, by decide +kernel⟩
  constructor <;> decide +kernel

/-- **A decoded event is one that JSON carries unchanged.** -/
theorem decodeEvent_portable {e e' : AnalyticsEvent} {v : Json} (hv : Utf8Texts v)
    (he : Portable e) (h : decodeEvent e v = some e') : Portable e' :=
  decodeStruct_keeps eventFields_keep hv he h

end FlowAlarm.Outbox

namespace FlowAlarm.Wire

open FlowAlarm.Text FlowAlarm.GoJson FlowAlarm.Outbox

/-! ## Notifications -/

/-- The parameters of a message, as they were read. -/
def ParamsRead (m : RpcEnvelope) : Prop := ∀ v ∈ m.params, Utf8Texts v

theorem envelopeFields_keep : ∀ f ∈ envelopeFields, Utf8Keeps ParamsRead f := by
  simp only [envelopeFields, List.forall_mem_cons]
  refine ⟨keeps_scalar fun _ _ _ _ _ h => h, keeps_scalar fun _ _ _ _ _ h => h,
    keeps_scalar fun _ _ _ _ _ h => h, keeps_raw fun v _ hv _ w hw => ?_,
    keeps_raw fun _ _ _ h => h, keeps_pointer fun _ _ h => h, by simp⟩
  cases hw
  exact hv

/-- Notification parameters whose event and cursor came out of a JSON decoder. -/
def ParamsTyped (p : EventNotificationParams) : Prop := Portable p.analytics ∧ p.cursor < 2 ^ 64

theorem paramsFields_keep : ∀ f ∈ paramsFields, Utf8Keeps ParamsTyped f := by
  simp only [paramsFields, List.forall_mem_cons]
  exact ⟨keeps_scalar fun _ _ _ _ _ h => h,
    keeps_scalar fun _ _ _ _ hn h => ⟨h.1, readUint_lt hn⟩,
    keeps_struct (L := Portable) (fun _ _ _ hv he h => decodeEvent_portable hv he h)
      (fun _ h => h.1) fun _ _ he h => ⟨he, h.2⟩, by simp⟩

/-- **Whatever the line, a notification that is handed on is well-typed.** -/
theorem consumeEvent_portable {line : Bytes} {n : EventNotification}
    (h : consumeEvent line = some n) :
    Portable n.event ∧ n.cursor < 2 ^ 64 ∧ n.cursor ≠ 0 := by
  unfold consumeEvent at h
  split at h
  · cases h
  next message hmessage =>
  obtain ⟨v, hv, hdecode⟩ := Option.bind_eq_some_iff.mp hmessage
  have hread : ParamsRead message :=
    decodeStruct_keeps envelopeFields_keep (readValue_texts hv) (by rintro w ⟨⟩) hdecode
  split at h
  · cases h
  split at h
  · split at h
    · cases h
    next params hparams =>
    obtain ⟨w, hw, hdecode⟩ := Option.bind_eq_some_iff.mp hparams
    have htyped : ParamsTyped params :=
      decodeStruct_keeps paramsFields_keep (hread w hw) ⟨portable_zero, by decide⟩ hdecode
    split at h
    · cases h
    next hvalid =>
      cases h
      exact ⟨htyped.1, htyped.2, fun hzero => hvalid (.inr hzero)⟩
  · cases h

end FlowAlarm.Wire
