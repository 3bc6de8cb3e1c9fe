import FlowAlarm.Trace.Lifecycle
import Mathlib.Data.List.Basic
import Mathlib.Order.Lattice

/-!
# Watching a condition

A condition is sighted again and again. Once it has held long enough an alarm
opens, it is told of changes at a bounded rate, and it closes once the condition
has been gone long enough; then it rests. Times are optional: a sighting may
have none. `Told` are the histories of the watch, newest turn first, and the
rules are read off them: when it opens (`opening_gated`), closes (`closing_iff`)
and tells of a change (`ongoing_iff`).
-/

namespace FlowAlarm.Trace.Watch

/-- `countLimit` and `timeLimit` are where counting and adding stop. -/
structure Rates where
  confirmCount : ℕ
  confirm : ℕ
  debounce : ℕ
  rest : ℕ
  grace : ℕ
  interval : ℕ
  countLimit : ℕ
  timeLimit : ℤ

variable {κ : Type}

/-- One look at the condition. A record made of it would carry `content`. -/
structure Sight (κ : Type) where
  holds : Bool
  time : Option ℤ
  content : κ
  /-- Whether it is a change to a record with that content. -/
  differs : κ → Bool

structure Live (κ : Type) where
  absentSince : Option ℤ
  lastTold : Option ℤ
  content : κ
  pending : Bool

/-- `candidate` counts the sightings of a condition that may open an alarm and has the time of the
first. -/
structure State (κ : Type) where
  candidate : Option (ℕ × Option ℤ)
  restUntil : Option ℤ
  live : Option (Live κ)

def State.start : State κ := ⟨none, none, none⟩

/-- At least `d` has passed between two times that are known. -/
def elapsed (since now : Option ℤ) (d : ℕ) : Bool :=
  match since, now with
  | some s, some n => decide (s ≤ n ∧ (d : ℤ) ≤ n - s)
  | _, _ => false

variable (r : Rates)

def nextCandidate (candidate : Option (ℕ × Option ℤ)) (i : Sight κ) : Option (ℕ × Option ℤ) :=
  if i.holds then
    match candidate with
    | none => some (1, i.time)
    | some (n, since) => some (min (n + 1) r.countLimit, since)
  else none

/-- Whether a time to rest until, if there is one, is over. -/
def rested (restUntil now : Option ℤ) : Bool :=
  match restUntil with
  | none => true
  | some u => now.any fun n => decide (u ≤ n)

def ready (candidate : Option (ℕ × Option ℤ)) (restUntil now : Option ℤ) : Bool :=
  match candidate with
  | none => false
  | some (n, since) =>
    (decide (0 < r.confirmCount ∧ r.confirmCount ≤ n) || elapsed since now r.confirm) &&
      rested restUntil now &&
      (r.debounce == 0 || elapsed since now r.debounce || now.isNone)

/-- Two records would stand closer than the interval. -/
def tooSoon (lastTold now : Option ℤ) : Bool :=
  lastTold.isSome && now.isSome && !elapsed lastTold now r.interval

def afterClosing (restUntil now : Option ℤ) : Option ℤ :=
  match now with
  | some n => if 0 < r.rest then some (min r.timeLimit (n + r.rest)) else restUntil
  | none => restUntil

/-- Whether an absence has lasted long enough. -/
def gone (since now : Option ℤ) : Bool := r.grace == 0 || elapsed since now r.grace

/-- One turn; `able` says whether a record can be made if one is due. -/
def step (able : Bool) (s : State κ) (i : Sight κ) : State κ × Option Kind :=
  match s.live with
  | none =>
    let candidate := nextCandidate r s.candidate i
    if ready r candidate s.restUntil i.time && able then
      (⟨none, s.restUntil, some ⟨none, i.time, i.content, false⟩⟩, some .opening)
    else ({ s with candidate := candidate }, none)
  | some l =>
    if !i.holds then
      let since := l.absentSince.or i.time
      if gone r since i.time && able then
        (⟨none, afterClosing r s.restUntil i.time, none⟩, some .closing)
      else ({ s with live := some { l with absentSince := since } }, none)
    else
      let pending := l.pending || i.differs l.content
      if pending && !tooSoon r l.lastTold i.time && able then
        ({ s with live := some ⟨none, i.time, i.content, false⟩ }, some .ongoing)
      else ({ s with live := some { l with absentSince := none, pending := pending } }, none)

/-- Everything a turn can do. -/
inductive Stepped (able : Bool) (s : State κ) (i : Sight κ) : State κ × Option Kind → Prop where
  | wait (hlive : s.live = none)
      (hnot : (ready r (nextCandidate r s.candidate i) s.restUntil i.time && able) = false) :
      Stepped able s i ({ s with candidate := nextCandidate r s.candidate i }, none)
  | opening (hlive : s.live = none)
      (hready : ready r (nextCandidate r s.candidate i) s.restUntil i.time = true)
      (hable : able = true) :
      Stepped able s i (⟨none, s.restUntil, some ⟨none, i.time, i.content, false⟩⟩, some .opening)
  | absent (l : Live κ) (hlive : s.live = some l) (hholds : i.holds = false)
      (hnot : (gone r (l.absentSince.or i.time) i.time && able) = false) :
      Stepped able s i
        ({ s with live := some { l with absentSince := l.absentSince.or i.time } }, none)
  | closing (l : Live κ) (hlive : s.live = some l) (hholds : i.holds = false)
      (hgone : gone r (l.absentSince.or i.time) i.time = true) (hable : able = true) :
      Stepped able s i (⟨none, afterClosing r s.restUntil i.time, none⟩, some .closing)
  | quiet (l : Live κ) (hlive : s.live = some l) (hholds : i.holds = true)
      (hnot : ((l.pending || i.differs l.content) && !tooSoon r l.lastTold i.time && able) =
        false) :
      Stepped able s i ({ s with
        live := some { l with absentSince := none, pending := l.pending || i.differs l.content } },
        none)
  | ongoing (l : Live κ) (hlive : s.live = some l) (hholds : i.holds = true)
      (hpending : (l.pending || i.differs l.content) = true)
      (hsoon : tooSoon r l.lastTold i.time = false) (hable : able = true) :
      Stepped able s i ({ s with live := some ⟨none, i.time, i.content, false⟩ }, some .ongoing)

theorem step_cases (able : Bool) (s : State κ) (i : Sight κ) :
    Stepped r able s i (step r able s i) := by
  unfold step
  split
  next hlive =>
    dsimp only
    split
    next h => exact .opening hlive (Bool.and_eq_true_iff.mp h).1 (Bool.and_eq_true_iff.mp h).2
    next h => exact .wait hlive (Bool.eq_false_iff.mpr h)
  next l hlive =>
    dsimp only
    split
    next hholds =>
      have hholds : i.holds = false := by simpa using hholds
      split
      next h => exact .closing l hlive hholds (Bool.and_eq_true_iff.mp h).1 (Bool.and_eq_true_iff.mp h).2
      next h => exact .absent l hlive hholds (Bool.eq_false_iff.mpr h)
    next hholds =>
      have hholds : i.holds = true := by simpa using hholds
      split
      next h =>
        simp only [Bool.and_eq_true, Bool.not_eq_true'] at h
        exact .ongoing l hlive hholds h.1.1 h.1.2 h.2
      next h => exact .quiet l hlive hholds (Bool.eq_false_iff.mpr h)

variable {r} in
theorem Stepped.eq {able : Bool} {s : State κ} {i : Sight κ} {p : State κ × Option Kind}
    (h : Stepped r able s i p) : step r able s i = p := by
  unfold step
  cases h with
  | wait hlive hnot => rw [hlive]; dsimp only; rw [hnot]; rfl
  | opening hlive hready hable => rw [hlive]; dsimp only; rw [hready, hable]; rfl
  | absent l hlive hholds hnot => rw [hlive]; dsimp only; rw [hholds, hnot]; rfl
  | closing l hlive hholds hgone hable => rw [hlive]; dsimp only; rw [hholds, hgone, hable]; rfl
  | quiet l hlive hholds hnot => rw [hlive]; dsimp only; rw [hholds, hnot]; rfl
  | ongoing l hlive hholds hpending hsoon hable =>
    rw [hlive]
    dsimp only
    rw [hholds, hpending, hsoon, hable]
    rfl

/-! ## Histories -/

/-- A turn as it was seen: the sighting, whether an alarm was open, and what was told. -/
structure Turn (κ : Type) where
  sight : Sight κ
  live : Bool
  able : Bool
  told : Option Kind

def turn (able : Bool) (s : State κ) (i : Sight κ) : Turn κ :=
  ⟨i, s.live.isSome, able, (step r able s i).2⟩

/-- The turns since the start, newest first, and the state they lead to. -/
inductive Told : List (Turn κ) → State κ → Prop where
  | start : Told [] .start
  | turn {ts : List (Turn κ)} {s : State κ} (h : Told ts s) (able : Bool) (i : Sight κ) :
      Told (turn r able s i :: ts) (step r able s i).1

variable {r} {ts : List (Turn κ)} {s : State κ} {t : Turn κ}

theorem Told.last (h : Told r (t :: ts) s) :
    ∃ s₀, Told r ts s₀ ∧ t = Watch.turn r t.able s₀ t.sight ∧ s = (step r t.able s₀ t.sight).1 := by
  cases h with
  | turn h able i => exact ⟨_, h, rfl, rfl⟩

/-! ## Opening -/

/-- The turns of a stretch, newest first, on which the condition held and nothing was open. -/
def Held (stretch : List (Turn κ)) : Prop := ∀ u ∈ stretch, u.sight.holds = true ∧ u.live = false

/-- The alarm that closed last, with its time, rules when the next one may open. -/
def Rested (r : Rates) (t : Turn κ) (ts : List (Turn κ)) : Prop :=
  ∀ u, ts.find? (fun u => u.told = some .closing) = some u → ∀ n, u.sight.time = some n →
    0 < r.rest → ∃ m, t.sight.time = some m ∧ min r.timeLimit (n + r.rest) ≤ m

/-- `stretch ++ [j]` confirms the condition at `t`, its newest turn. -/
structure Confirms (r : Rates) (t : Turn κ) (stretch : List (Turn κ)) (j : Turn κ) : Prop where
  held : Held (stretch ++ [j])
  confirmed : (0 < r.confirmCount ∧ r.confirmCount ≤ stretch.length + 1) ∨
    elapsed j.sight.time t.sight.time r.confirm = true
  debounced : r.debounce = 0 ∨ elapsed j.sight.time t.sight.time r.debounce = true ∨
    t.sight.time = none

/-- What the candidate says of the turns so far. -/
structure Stands (r : Rates) (s : State κ) (ts : List (Turn κ)) : Prop where
  idle : s.live.isSome = true → s.candidate = none
  candidate : ∀ n since, s.candidate = some (n, since) → ∃ stretch j rest,
    ts = stretch ++ j :: rest ∧ Held (stretch ++ [j]) ∧ n ≤ stretch.length + 1 ∧
      since = j.sight.time
  rest : ∀ u, ts.find? (fun u => u.told = some .closing) = some u → ∀ n, u.sight.time = some n →
    0 < r.rest → s.restUntil = some (min r.timeLimit (n + r.rest))

theorem find_turn_of_ne {k : Kind} (h : t.told ≠ some k) :
    (t :: ts).find? (fun u => u.told = some k) = ts.find? (fun u => u.told = some k) := by
  rw [List.find?_cons_of_neg]
  simpa using h

/-- The candidate after a sighting while nothing is open. -/
theorem nextCandidate_spec (h : Stands r s ts) (able : Bool) (i : Sight κ)
    (hlive : s.live = none) {n : ℕ} {since : Option ℤ}
    (hc : nextCandidate r s.candidate i = some (n, since)) : ∃ stretch j rest,
      turn r able s i :: ts = stretch ++ j :: rest ∧ Held (stretch ++ [j]) ∧
        n ≤ stretch.length + 1 ∧ since = j.sight.time := by
  unfold nextCandidate at hc
  split at hc
  next hholds =>
    have hnow : (turn r able s i).sight.holds = true ∧ (turn r able s i).live = false :=
      ⟨hholds, by rw [turn, hlive]; rfl⟩
    split at hc
    · cases hc
      refine ⟨[], turn r able s i, ts, rfl, ?_, le_rfl, rfl⟩
      intro u hu
      rw [List.nil_append, List.mem_singleton] at hu
      exact hu ▸ hnow
    next n' since' hcand =>
      cases hc
      obtain ⟨stretch, j, rest, hts, hheld, hn, hsince⟩ := h.candidate _ _ hcand
      refine ⟨turn r able s i :: stretch, j, rest, by rw [hts]; rfl, ?_, ?_, hsince⟩
      · intro u hu
        rcases List.mem_cons.mp hu with rfl | hu
        · exact hnow
        · exact hheld u hu
      · rw [List.length_cons]
        exact (min_le_left _ _).trans (by omega)
  next => cases hc

theorem Told.stands (h : Told r ts s) : Stands r s ts := by
  induction h with
  | start => exact ⟨(fun h => nomatch h), fun _ _ h => (nomatch h), fun _ h => nomatch h⟩
  | @turn ts s h able i ih =>
    have hspec := fun hlive n since => @nextCandidate_spec _ _ _ _ ih able i hlive n since
    have hkept : ∀ told, (step r able s i).2 = told → told ≠ some .closing →
        (Watch.turn r able s i :: ts).find? (fun u => u.told = some .closing) =
          ts.find? (fun u => u.told = some .closing) :=
      fun told heq hne => find_turn_of_ne (by rw [Watch.turn, heq]; exact hne)
    have hcases := step_cases r able s i
    generalize hstep : step r able s i = p at hcases hkept ⊢
    cases hcases with
    | wait hlive hnot =>
      refine ⟨fun hl => ?_, fun n since hc => hspec hlive n since hc, ?_⟩
      · rw [hlive] at hl
        cases hl
      · rw [hkept none rfl (by simp)]
        exact ih.rest
    | opening hlive hready hable =>
      refine ⟨fun _ => rfl, fun _ _ hc => (nomatch hc), ?_⟩
      rw [hkept _ rfl (by simp)]
      exact ih.rest
    | absent l hlive hholds hnot =>
      have hnone := ih.idle (by rw [hlive]; rfl)
      refine ⟨fun _ => hnone, fun n since hc => ?_, ?_⟩
      · rw [hnone] at hc
        cases hc
      · rw [hkept none rfl (by simp)]
        exact ih.rest
    | closing l hlive hholds hgone hable =>
      refine ⟨fun hl => (nomatch hl), fun _ _ hc => (nomatch hc), ?_⟩
      intro u hu n hn hrest
      have htold : (Watch.turn r able s i).told = some .closing := by rw [Watch.turn, hstep]
      rw [List.find?_cons_of_pos (by simpa using htold)] at hu
      obtain rfl := Option.some.inj hu
      have hn : i.time = some n := hn
      simp only [afterClosing, hn, if_pos hrest]
    | quiet l hlive hholds hnot =>
      have hnone := ih.idle (by rw [hlive]; rfl)
      refine ⟨fun _ => hnone, fun n since hc => ?_, ?_⟩
      · rw [hnone] at hc
        cases hc
      · rw [hkept none rfl (by simp)]
        exact ih.rest
    | ongoing l hlive hholds hpending hsoon hable =>
      have hnone := ih.idle (by rw [hlive]; rfl)
      refine ⟨fun _ => hnone, fun n since hc => ?_, ?_⟩
      · rw [hnone] at hc
        cases hc
      · rw [hkept _ rfl (by simp)]
        exact ih.rest

theorem rested_spec {u : ℤ} {now : Option ℤ} (h : rested (some u) now = true) :
    ∃ m, now = some m ∧ u ≤ m := by
  cases now with
  | none => cases h
  | some m => exact ⟨m, rfl, of_decide_eq_true h⟩

/-- **An alarm opens only where the condition was confirmed**, and only after its rest. -/
theorem opening_gated (h : Told r (t :: ts) s) (hopen : t.told = some .opening) :
    (∃ stretch j rest, t :: ts = stretch ++ j :: rest ∧ Confirms r t stretch j) ∧
      Rested r t ts := by
  obtain ⟨s₀, hs₀, ht, -⟩ := h.last
  have hstands := hs₀.stands
  have htold : (step r t.able s₀ t.sight).2 = some .opening := by rw [← hopen, ht]; rfl
  have hcases := step_cases r t.able s₀ t.sight
  generalize step r t.able s₀ t.sight = p at hcases htold
  cases hcases with
  | wait | absent | quiet | closing | ongoing => cases htold
  | opening hlive hready hable =>
    unfold ready at hready
    split at hready
    · cases hready
    next n since hcand =>
    obtain ⟨stretch, j, rest, hts, hheld, hn, rfl⟩ :=
      nextCandidate_spec hstands t.able t.sight hlive hcand
    rw [← ht] at hts
    simp only [Bool.and_eq_true, Bool.or_eq_true, decide_eq_true_eq, beq_iff_eq,
      Option.isNone_iff_eq_none] at hready
    obtain ⟨⟨hconfirmed, hrested⟩, hdebounced⟩ := hready
    refine ⟨⟨stretch, j, rest, hts, hheld, ?_, ?_⟩, fun u hu n hn hrest => ?_⟩
    · exact hconfirmed.imp_left fun hc => ⟨hc.1, hc.2.trans hn⟩
    · rcases hdebounced with (hd | hd) | hd
      · exact .inl hd
      · exact .inr (.inl hd)
      · exact .inr (.inr hd)
    · rw [hstands.rest u hu n hn hrest] at hrested
      exact rested_spec hrested

/-! ## Closing -/

/-- The turns up to the newest on which the open alarm's condition was gone. -/
def absentStretch (ts : List (Turn κ)) : List (Turn κ) :=
  ts.takeWhile fun u => u.live && !u.sight.holds

/-- The oldest time of the stretch. -/
def absentSince (ts : List (Turn κ)) : Option ℤ :=
  ((absentStretch ts).filterMap fun u => u.sight.time).getLast?

theorem absentSince_cons (hl : t.live = true) (hh : t.sight.holds = false) :
    absentSince (t :: ts) = (absentSince ts).or t.sight.time := by
  have hcons : ∀ us : List (Turn κ), (t :: us).filterMap (fun u => u.sight.time) =
      t.sight.time.toList ++ us.filterMap fun u => u.sight.time := by
    intro us
    rw [List.filterMap_cons]
    cases t.sight.time <;> rfl
  rw [absentSince, absentStretch, List.takeWhile_cons_of_pos (by simp [hl, hh]), hcons,
    List.getLast?_append]
  cases t.sight.time <;> rfl

theorem absentSince_other (h : t.live = false ∨ t.sight.holds = true) :
    absentSince (t :: ts) = none := by
  rw [absentSince, absentStretch, List.takeWhile_cons_of_neg]
  · rfl
  · rcases h with h | h <;> simp [h]

theorem Told.absentSince (h : Told r ts s) {l : Live κ} (hl : s.live = some l) :
    l.absentSince = Watch.absentSince ts := by
  induction h generalizing l with
  | start => cases hl
  | @turn ts s h able i ih =>
    have hcases := step_cases r able s i
    generalize hstep : step r able s i = p at hcases hl
    cases hcases with
    | wait hlive hnot =>
      have hl : s.live = some l := hl
      rw [hlive] at hl
      cases hl
    | opening hlive hready hable =>
      cases hl
      rw [absentSince_other (.inl (by rw [Watch.turn, hlive]; rfl))]
    | absent l' hlive hholds hnot =>
      cases hl
      rw [absentSince_cons (by rw [Watch.turn, hlive]; rfl) hholds, ih hlive]
      rfl
    | closing => cases hl
    | quiet l' hlive hholds hnot =>
      cases hl
      rw [absentSince_other (.inr hholds)]
    | ongoing l' hlive hholds hpending hsoon hable =>
      cases hl
      rw [absentSince_other (.inr hholds)]

/-- **An open alarm closes exactly when its condition has been gone for the grace period.** -/
theorem closing_iff (h : Told r (t :: ts) s) (hlive : t.live = true) (hable : t.able = true) :
    t.told = some .closing ↔ t.sight.holds = false ∧
      (r.grace = 0 ∨ elapsed (absentSince (t :: ts)) t.sight.time r.grace = true) := by
  obtain ⟨s₀, hs₀, ht, -⟩ := h.last
  have hl₀ : s₀.live.isSome = true := by rw [← hlive, ht]; rfl
  have htold : t.told = (step r t.able s₀ t.sight).2 := by rw [ht]; rfl
  have hcases := step_cases r t.able s₀ t.sight
  rw [htold]
  generalize step r t.able s₀ t.sight = p at hcases
  have hsince : ∀ l, s₀.live = some l → t.sight.holds = false →
      Watch.absentSince (t :: ts) = l.absentSince.or t.sight.time := fun l hl hh => by
    rw [absentSince_cons hlive hh, hs₀.absentSince hl]
  cases hcases with
  | wait hnone | opening hnone =>
    rw [hnone] at hl₀
    cases hl₀
  | absent l hl hholds hnot =>
    rw [hable, Bool.and_true, gone, Bool.or_eq_false_iff] at hnot
    rw [hsince l hl hholds, hnot.2]
    simpa [hholds] using hnot.1
  | closing l hl hholds hgone =>
    rw [gone, Bool.or_eq_true, beq_iff_eq] at hgone
    rw [hsince l hl hholds]
    exact ⟨fun _ => ⟨hholds, hgone⟩, fun _ => rfl⟩
  | quiet l hl hholds => simp [hholds]
  | ongoing l hl hholds => simp [hholds]

/-! ## Telling of changes -/

/-- The turn of the newest record. -/
def lastTold (ts : List (Turn κ)) : Option (Turn κ) := ts.find? fun u => u.told.isSome

/-- The turns since the newest record. -/
def sinceTold (ts : List (Turn κ)) : List (Turn κ) := ts.takeWhile fun u => u.told.isNone

/-- A change to the record of `u`, sighted while its alarm was open. -/
def Changed (u v : Turn κ) : Prop :=
  v.live = true ∧ v.sight.holds = true ∧ v.sight.differs u.sight.content = true

/-- What an open alarm says of the turns so far. -/
structure Opened (l : Live κ) (ts : List (Turn κ)) (u : Turn κ) : Prop where
  last : lastTold ts = some u
  kind : u.told = some .opening ∨ u.told = some .ongoing
  time : l.lastTold = u.sight.time
  content : l.content = u.sight.content
  pending : l.pending = true ↔ ∃ v ∈ sinceTold ts, Changed u v

theorem lastTold_told (h : t.told.isSome = true) :
    lastTold (t :: ts) = some t ∧ sinceTold (t :: ts) = [] := by
  refine ⟨List.find?_cons_of_pos h, List.takeWhile_cons_of_neg ?_⟩
  rw [Option.isNone_iff_eq_none]
  intro hn
  rw [hn] at h
  cases h

theorem lastTold_untold (h : t.told = none) :
    lastTold (t :: ts) = lastTold ts ∧ sinceTold (t :: ts) = t :: sinceTold ts :=
  ⟨List.find?_cons_of_neg (by simp [h]), List.takeWhile_cons_of_pos (by simp [h])⟩

/-- A new record starts afresh. -/
theorem Opened.fresh (hkind : t.told = some .opening ∨ t.told = some .ongoing) :
    Opened ⟨none, t.sight.time, t.sight.content, false⟩ (t :: ts) t := by
  have htold : t.told.isSome = true := by rcases hkind with h | h <;> rw [h] <;> rfl
  refine ⟨(lastTold_told htold).1, hkind, rfl, rfl, ?_⟩
  rw [(lastTold_told htold).2]
  simp

theorem Told.opened (h : Told r ts s) {l : Live κ} (hl : s.live = some l) :
    ∃ u, Opened l ts u := by
  induction h generalizing l with
  | start => cases hl
  | @turn ts s h able i ih =>
    have hquiet : (step r able s i).2 = none → (Watch.turn r able s i).told = none := fun h => h
    have hcases := step_cases r able s i
    generalize hstep : step r able s i = p at hcases hl hquiet
    cases hcases with
    | wait hlive hnot =>
      have hl : s.live = some l := hl
      rw [hlive] at hl
      cases hl
    | opening hlive hready hable =>
      cases hl
      have htold : (Watch.turn r able s i).told = some .opening := congrArg Prod.snd hstep
      exact ⟨_, Opened.fresh (.inl htold)⟩
    | absent l' hlive hholds hnot =>
      cases hl
      obtain ⟨u, hu⟩ := ih hlive
      obtain ⟨hlast, hsince⟩ := @lastTold_untold κ ts (Watch.turn r able s i) (hquiet rfl)
      refine ⟨u, hlast.trans hu.last, hu.kind, hu.time, hu.content, hu.pending.trans ?_⟩
      rw [hsince]
      constructor
      · rintro ⟨v, hv, hc⟩
        exact ⟨v, List.mem_cons_of_mem _ hv, hc⟩
      · rintro ⟨v, hv, hc⟩
        rcases List.mem_cons.mp hv with rfl | hv
        · have hholds' : i.holds = true := hc.2.1
          rw [hholds] at hholds'
          cases hholds'
        · exact ⟨v, hv, hc⟩
    | closing => cases hl
    | quiet l' hlive hholds hnot =>
      cases hl
      obtain ⟨u, hu⟩ := ih hlive
      obtain ⟨hlast, hsince⟩ := @lastTold_untold κ ts (Watch.turn r able s i) (hquiet rfl)
      refine ⟨u, hlast.trans hu.last, hu.kind, hu.time, hu.content, ?_⟩
      rw [hsince, Bool.or_eq_true, hu.pending, List.exists_mem_cons_iff, or_comm]
      refine or_congr_left ?_
      have hlive' : (Watch.turn r able s i).live = true := by rw [Watch.turn, hlive]; rfl
      rw [hu.content]
      exact ⟨fun hd => ⟨hlive', hholds, hd⟩, fun hc => hc.2.2⟩
    | ongoing l' hlive hholds hpending hsoon hable =>
      cases hl
      have htold : (Watch.turn r able s i).told = some .ongoing := congrArg Prod.snd hstep
      exact ⟨_, Opened.fresh (.inr htold)⟩

/-- Behind its newest record an open alarm is open at every turn. -/
theorem Told.since_live (h : Told r ts s) (hl : s.live.isSome = true) :
    ∀ v ∈ sinceTold ts, v.live = true := by
  induction h with
  | start => exact fun v hv => nomatch hv
  | @turn ts s h able i ih =>
    have hcases := step_cases r able s i
    generalize hstep : step r able s i = p at hcases hl
    have hrecord : p.2.isSome = true →
        ∀ v ∈ sinceTold (Watch.turn r able s i :: ts), v.live = true := by
      intro htold
      rw [(lastTold_told (by rw [Watch.turn, hstep]; exact htold)).2]
      exact fun v hv => nomatch hv
    have hquiet : p.2 = none → s.live.isSome = true →
        ∀ v ∈ sinceTold (Watch.turn r able s i :: ts), v.live = true := by
      intro htold hlive
      rw [(lastTold_untold (by rw [Watch.turn, hstep]; exact htold)).2]
      exact List.forall_mem_cons.mpr ⟨hlive, ih hlive⟩
    cases hcases with
    | wait hlive =>
      have hl : s.live.isSome = true := hl
      rw [hlive] at hl
      cases hl
    | opening | ongoing => exact hrecord rfl
    | absent l hlive | quiet l hlive => exact hquiet rfl (by rw [hlive]; rfl)
    | closing => cases hl

/-- **An open alarm tells exactly of the changes since its last record**, as soon as the condition
holds and the interval has passed. -/
theorem ongoing_iff (h : Told r (t :: ts) s) (hlive : t.live = true) (hable : t.able = true) :
    ∃ u, lastTold ts = some u ∧ (u.told = some .opening ∨ u.told = some .ongoing) ∧
      (t.told = some .ongoing ↔ t.sight.holds = true ∧
        (∃ v ∈ t :: sinceTold ts, Changed u v) ∧
        tooSoon r u.sight.time t.sight.time = false) := by
  obtain ⟨s₀, hs₀, ht, -⟩ := h.last
  have hl₀ : s₀.live.isSome = true := by rw [← hlive, ht]; rfl
  obtain ⟨l, hl⟩ := Option.isSome_iff_exists.mp hl₀
  obtain ⟨u, hu⟩ := hs₀.opened hl
  refine ⟨u, hu.last, hu.kind, ?_⟩
  have htold : t.told = (step r t.able s₀ t.sight).2 := by rw [ht]; rfl
  have hchanged : t.sight.holds = true → ((l.pending || t.sight.differs l.content) = true ↔
      ∃ v ∈ t :: sinceTold ts, Changed u v) := by
    intro hh
    rw [Bool.or_eq_true, hu.pending, List.exists_mem_cons_iff, or_comm, hu.content]
    exact or_congr_left ⟨fun hd => ⟨hlive, hh, hd⟩, fun hc => hc.2.2⟩
  have hcases := step_cases r t.able s₀ t.sight
  rw [htold, ← hu.time]
  generalize step r t.able s₀ t.sight = p at hcases
  cases hcases with
  | wait hnone | opening hnone =>
    rw [hnone] at hl
    cases hl
  | absent l' hl' hholds => simp [hholds]
  | closing l' hl' hholds => simp [hholds]
  | quiet l' hl' hholds hnot =>
    rw [hl] at hl'
    obtain rfl := Option.some.inj hl'
    rw [hable, Bool.and_true, Bool.and_eq_false_iff, Bool.not_eq_false'] at hnot
    refine ⟨fun h => (nomatch h), fun ⟨_, hc, hsoon⟩ => ?_⟩
    rw [← hchanged hholds] at hc
    rcases hnot with hnot | hnot
    · rw [hc] at hnot
      cases hnot
    · rw [hsoon] at hnot
      cases hnot
  | ongoing l' hl' hholds hpending hsoon =>
    rw [hl] at hl'
    obtain rfl := Option.some.inj hl'
    exact ⟨fun _ => ⟨hholds, (hchanged hholds).mp hpending, hsoon⟩, fun _ => rfl⟩

/-- What was told could be told of an open alarm, or opened one. -/
theorem Told.able (h : Told r (t :: ts) s) {k : Kind} (hk : t.told = some k) :
    t.able = true ∧ (t.live = true ↔ k ≠ .opening) := by
  obtain ⟨s₀, -, ht, -⟩ := h.last
  have htold : (step r t.able s₀ t.sight).2 = some k := by rw [← hk, ht]; rfl
  have hlive : t.live = s₀.live.isSome := by rw [ht]; rfl
  have hcases := step_cases r t.able s₀ t.sight
  rw [hlive]
  generalize step r t.able s₀ t.sight = p at hcases htold
  cases hcases with
  | wait | absent | quiet => cases htold
  | opening hnone hready hable =>
    cases htold
    simp [hnone, hable]
  | closing l hl hholds hgone hable =>
    cases htold
    simp [hl, hable]
  | ongoing l hl hholds hpending hsoon hable =>
    cases htold
    simp [hl, hable]

end FlowAlarm.Trace.Watch
