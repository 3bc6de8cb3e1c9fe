import FlowAlarm.Evidence.LoadEvidence
import FlowAlarm.Data.Directory

/-!
# Staging evidence

`stageEvidence` copies the evidence of an event from the engine's directory to
the daemon's own, step by step, so that other work on the directory can come in
between: `Staging` is what it does next. A staged file is written under a
temporary name and renamed, so a step writes all of it or nothing
(`Directory.perform_writeAtomic`).
-/

namespace FlowAlarm.Delivery

open FlowAlarm.Text FlowAlarm.Media FlowAlarm.Evidence FlowAlarm.Directory

inductive StageErr where
  | unsafeID
  | mkdir
  | load (e : LoadErr)
  | measure
  | overflow
  | capacity (need : Nat) (used limit : Int)
  | write
  | verify (e : LoadErr)
  deriving DecidableEq

/-- What the file system does to one step; `unsynced` is an error after the file was renamed, and
an existing file that cannot be read. -/
inductive FileIo where
  | done
  | fails
  | unsynced
  deriving DecidableEq

/-! ## Capacity -/

/-- The sum of the file sizes, unless it leaves `int64`. -/
def evidenceDirectoryBytes (files : Files) : Option Nat :=
  files.foldl (fun total f => total.bind fun t =>
    if 0 < f.2.length ∧ 2 ^ 63 - 1 - (f.2.length : Int) < t then none else some (t + f.2.length))
    (some 0)

def sizeOf (name : Bytes) (files : Files) : Nat := ((find name files).map List.length).getD 0

def ensureEvidenceCapacity (files : Files) (evidenceID : Bytes) (incoming : Nat) (maxBytes : Int) :
    Option StageErr :=
  if maxBytes ≤ 0 then none
  else
    match evidenceDirectoryBytes files with
    | none => some .overflow
    | some total =>
      let used : Int := total - sizeOf (jsonName evidenceID) files -
        sizeOf (jpegName evidenceID) files
      if maxBytes - used < incoming then some (.capacity incoming used maxBytes) else none

/-! ## The steps -/

/-- What `stageEvidence` does next. -/
inductive Staging where
  | check
  | source
  | writeMetadata (metadata image : Bytes)
  | writeImage (image : Bytes)
  | dropMetadata
  | verify
  | undoMetadata (e : LoadErr)
  | undoImage (e : LoadErr)
  | finished (result : Except StageErr (Bytes × Bytes))

/-- The directories and the limit of the service. -/
structure EvidenceConfig where
  evidenceDir : Bytes
  evidenceOutboxDir : Bytes
  evidenceMaxBytes : Int

variable (sha : Sha256) (cfg : EvidenceConfig)

/-- One step of `stageEvidence`, from `source` to `files`. -/
def stageStep (source : Files) (io : FileIo) (event : AnalyticsEvent) (files : Files) :
    Staging → Staging × Files
  | .check =>
    if !validEvidenceComponent event.evidenceID then (.finished (.error .unsafeID), files)
    else
      match io with
      | .fails => (.finished (.error .mkdir), files)
      | .unsynced => (.source, files)
      | .done =>
        if (find (jsonName event.evidenceID) files).isSome ∧
            (find (jpegName event.evidenceID) files).isSome then
          match loadEvidence sha cfg.evidenceOutboxDir files event with
          | .ok pair => (.finished (.ok pair), files)
          | .error _ => (.source, files)
        else (.source, files)
  | .source =>
    match loadEvidence sha cfg.evidenceDir source event with
    | .error e => (.finished (.error (.load e)), files)
    | .ok (metadata, image) =>
      if io ≠ .done ∧ 0 < cfg.evidenceMaxBytes then (.finished (.error .measure), files)
      else
        match ensureEvidenceCapacity files event.evidenceID (metadata.length + image.length)
            cfg.evidenceMaxBytes with
        | some e => (.finished (.error e), files)
        | none => (.writeMetadata metadata image, files)
  | .writeMetadata metadata image =>
    let written := Keyed.insert Prod.fst (jsonName event.evidenceID, metadata) files
    match io with
    | .done => (.writeImage image, written)
    | .fails => (.finished (.error .write), files)
    | .unsynced => (.finished (.error .write), written)
  | .writeImage image =>
    let written := Keyed.insert Prod.fst (jpegName event.evidenceID, image) files
    match io with
    | .done => (.verify, written)
    | .fails => (.dropMetadata, files)
    | .unsynced => (.dropMetadata, written)
  | .dropMetadata =>
    (.finished (.error .write),
      if io = .done then Keyed.erase Prod.fst (jsonName event.evidenceID) files else files)
  | .verify =>
    match loadEvidence sha cfg.evidenceOutboxDir files event with
    | .ok pair =>
      if io = .done then (.finished (.ok pair), files) else (.undoMetadata .readMetadata, files)
    | .error e => (.undoMetadata e, files)
  | .undoMetadata e =>
    (.undoImage e,
      if io = .done then Keyed.erase Prod.fst (jsonName event.evidenceID) files else files)
  | .undoImage e =>
    (.finished (.error (.verify e)),
      if io = .done then Keyed.erase Prod.fst (jpegName event.evidenceID) files else files)
  | .finished result => (.finished result, files)

/-- **Staging succeeds only on evidence that is there**, complete and checked. -/
theorem stageStep_ok {source files files' : Files} {io : FileIo} {event : AnalyticsEvent}
    {st : Staging} {pair : Bytes × Bytes} (hst : ∀ r, st ≠ .finished r)
    (h : stageStep sha cfg source io event files st = (.finished (.ok pair), files')) :
    files' = files ∧ loadEvidence sha cfg.evidenceOutboxDir files event = .ok pair := by
  cases st with
  | check =>
    simp only [stageStep] at h
    split at h
    · simp at h
    cases io with
    | fails => simp at h
    | unsynced => simp at h
    | done =>
      dsimp only at h
      split at h
      · split at h
        next hload =>
          simp only [Prod.mk.injEq, Staging.finished.injEq, Except.ok.injEq] at h
          exact ⟨h.2.symm, h.1 ▸ hload⟩
        · simp at h
      · simp at h
  | source =>
    simp only [stageStep] at h
    split at h
    · simp at h
    split at h
    · simp at h
    split at h <;> simp at h
  | writeMetadata m i => cases io <;> simp [stageStep] at h
  | writeImage i => cases io <;> simp [stageStep] at h
  | dropMetadata | undoMetadata | undoImage => simp [stageStep] at h
  | verify =>
    simp only [stageStep] at h
    split at h
    next hload =>
      split at h
      · simp only [Prod.mk.injEq, Staging.finished.injEq, Except.ok.injEq] at h
        exact ⟨h.2.symm, h.1 ▸ hload⟩
      · simp at h
    · simp at h
  | finished r => exact absurd rfl (hst r)

end FlowAlarm.Delivery
