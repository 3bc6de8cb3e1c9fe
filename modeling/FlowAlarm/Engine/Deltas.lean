import FlowAlarm.Engine.Rejection
import FlowAlarm.Trace.Ledger

/-!
# Direction deltas are conserved

A matching fact costs one in its direction when the accepted observation before
it did not hold the same track and direction (`freshCount`). The trace of a
session interleaves the accepted observations with the records, and each
direction is an account over it (`directionTariff`): the engine's pending delta
is what the open lifecycle still owes (`Booked`), so an END pays the rest.
-/

namespace FlowAlarm.Engine

open FlowAlarm.Text FlowAlarm.Trace
open FlowAlarm.Trace.Ledger (Entry Tariff State Step Run Continuing charges paid inputs outputs
  outputs_append outputs_records)

/-! ## Matching and fresh facts -/

def factMatches (config : MeAnalyticsConfig) (f : MeRuleFact) : Bool :=
  f.ruleType == config.ruleType && f.ruleId == config.ruleId && config.scoreThresholdQ ≤ f.scoreQ

/-- The facts of an observation that the configured rule matches; occupancy matches none. -/
def matchingFacts (config : MeAnalyticsConfig) (o : MeNormalizedObservation) : List MeRuleFact :=
  if config.ruleType == .occupancy then [] else o.rules.filter (factMatches config)

def holdsFact (facts : List MeRuleFact) (f : MeRuleFact) : Bool :=
  facts.any fun g => g.trackId == f.trackId && g.direction == f.direction

/-- The facts of `o` in direction `d` that the observation before it did not hold. -/
def freshCount (d : MeRuleDirection) (config : MeAnalyticsConfig)
    (last : Option MeNormalizedObservation) (o : MeNormalizedObservation) : Nat :=
  (matchingFacts config o).countP fun f =>
    f.direction == d && !holdsFact (last.elim [] (matchingFacts config)) f

/-- The matching facts of one observation have different tracks. -/
def DistinctFacts (rules : List MeRuleFact) : Prop :=
  rules.Pairwise fun r s => r.ruleId = s.ruleId → r.trackId ≠ s.trackId

theorem validateRules_distinct {i : Nat} {seen rules : List MeRuleFact}
    (h : validateRules i seen rules = .ok ()) :
    (∀ s ∈ seen, ∀ r ∈ rules, s.ruleId = r.ruleId → s.trackId ≠ r.trackId) ∧
      DistinctFacts rules := by
  induction rules generalizing i seen with
  | nil => exact ⟨by simp, .nil⟩
  | cons rule rest ih =>
    simp only [validateRules] at h
    split at h
    · cases h
    split at h
    · cases h
    next hdup =>
    have hnew : ∀ s ∈ seen, s.ruleId = rule.ruleId → s.trackId ≠ rule.trackId := by
      intro s hs hid htrack
      exact hdup (List.any_eq_true.mpr ⟨s, hs, by simp [hid, htrack]⟩)
    obtain ⟨hseen, hrest⟩ := ih h
    refine ⟨?_, List.pairwise_cons.mpr ⟨fun r hr => ?_, hrest⟩⟩
    · intro s hs r hr
      rcases List.mem_cons.mp hr with rfl | hr
      · exact hnew s hs
      · exact hseen s (List.mem_append_left _ hs) r hr
    · exact hseen rule (List.mem_append_right _ List.mem_cons_self) r hr

theorem rules_distinct {o : MeNormalizedObservation} (h : meObservationValidate o = .ok ()) :
    DistinctFacts o.rules := by
  unfold meObservationValidate at h
  iterate 7
    split at h
    · cases h
  cases hcl : validateClock o with
  | error err => simp only [hcl, bind, Except.bind, reduceCtorEq] at h
  | ok u =>
    simp only [hcl, bind, Except.bind] at h
    iterate 2
      split at h
      · cases h
    cases htr : validateTracks 0 [] o.tracks with
    | error err => simp only [htr, reduceCtorEq] at h
    | ok u =>
      simp only [htr] at h
      split at h
      · cases h
      · exact (validateRules_distinct h).2

/-! ## The remembered facts -/

/-- The directions remembered for a track. -/
def rememberedDirections : List MeEventRuleFactState → Nat → List MeRuleDirection
  | [], _ => []
  | s :: states, t =>
    if s.inUse && s.trackId == t then s.directionPresent else rememberedDirections states t

theorem ruleFactSeen_eq (states : List MeEventRuleFactState) (f : MeRuleFact) :
    ruleFactSeen states f =
      (validDirection f.direction && (rememberedDirections states f.trackId).contains f.direction) := by
  unfold ruleFactSeen
  congr 1
  induction states with
  | nil => rfl
  | cons s states ih =>
    unfold findRuleFactState at ih ⊢
    rw [List.findIdx?_cons, rememberedDirections]
    by_cases hs : (s.inUse && s.trackId == f.trackId) = true
    · rw [if_pos hs, if_pos hs]
      rfl
    · rw [if_neg hs, if_neg hs, ← ih]
      cases states.findIdx? (fun s => s.inUse && s.trackId == f.trackId) with
      | none => rfl
      | some slot => rfl

theorem rememberedDirections_modify {states : List MeEventRuleFactState} {t slot : Nat}
    (d : MeRuleDirection) (h : findRuleFactState states t = some slot) (t' : Nat) :
    rememberedDirections (states.modify slot (setDirection d)) t' =
      if t' = t then d :: rememberedDirections states t else rememberedDirections states t' := by
  induction states generalizing slot with
  | nil => simp [findRuleFactState] at h
  | cons s states ih =>
    unfold findRuleFactState at ih h
    rw [List.findIdx?_cons] at h
    split at h
    · next hs =>
      cases h
      have hs' := hs
      simp only [Bool.and_eq_true, beq_iff_eq] at hs'
      obtain ⟨huse, rfl⟩ := hs'
      simp only [List.modify_zero_cons, rememberedDirections, setDirection, huse, Bool.true_and,
        beq_iff_eq, beq_self_eq_true, if_true]
      by_cases ht : t' = s.trackId
      · simp [ht]
      · simp [ht, Ne.symm ht]
    · next hs =>
      cases hf : states.findIdx? (fun s => s.inUse && s.trackId == t) with
      | none => simp [hf] at h
      | some slot' =>
        simp only [hf, Option.map_some, Option.some.injEq] at h
        subst h
        simp only [List.modify_succ_cons, rememberedDirections, ih hf]
        by_cases ht : t' = t
        · subst ht
          simp [hs]
        · simp [ht]

theorem rememberedDirections_allocate {states : List MeEventRuleFactState} {t slot : Nat}
    (d : MeRuleDirection) (hnone : findRuleFactState states t = none)
    (hfree : (states.findIdx? fun s => !s.inUse) = some slot) (t' : Nat) :
    rememberedDirections ((states.set slot { inUse := true, trackId := t }).modify slot
        (setDirection d)) t' =
      if t' = t then [d] else rememberedDirections states t' := by
  induction states generalizing slot with
  | nil => simp at hfree
  | cons s states ih =>
    unfold findRuleFactState at ih hnone
    rw [List.findIdx?_cons] at hnone hfree
    split at hnone
    · cases hnone
    next hs =>
    split at hfree
    · next hfreeSlot =>
      cases hfree
      have huse : s.inUse = false := by simpa using hfreeSlot
      simp only [List.set_cons_zero, List.modify_zero_cons, rememberedDirections, setDirection,
        Bool.true_and, beq_iff_eq, huse, Bool.false_and]
      by_cases ht : t' = t
      · simp [ht]
      · simp [ht, Ne.symm ht]
    · cases hf : states.findIdx? (fun s => !s.inUse) with
      | none => simp [hf] at hfree
      | some slot' =>
        simp only [hf, Option.map_some, Option.some.injEq] at hfree
        subst hfree
        simp only [List.set_cons_succ, List.modify_succ_cons, rememberedDirections,
          ih (by simpa using hnone) hf]
        by_cases ht : t' = t
        · subst ht
          simp [hs]
        · simp [ht]

theorem rememberRuleFact_seen {states states' : List MeEventRuleFactState} {fact : MeRuleFact}
    (h : rememberRuleFact states fact = some states') (f : MeRuleFact) :
    ruleFactSeen states' f = (ruleFactSeen states f ||
      (validDirection f.direction && holdsFact [fact] f)) := by
  have hdirs : ∀ t', rememberedDirections states' t' =
      if t' = fact.trackId then fact.direction :: rememberedDirections states fact.trackId
      else rememberedDirections states t' := by
    intro t'
    unfold rememberRuleFact at h
    split at h
    · cases h
    cases hf : findRuleFactState states fact.trackId with
    | some slot =>
      simp only [hf, Option.some.injEq] at h
      rw [← h, rememberedDirections_modify _ hf]
    | none =>
      simp only [hf, allocateRuleFactState] at h
      cases hi : states.findIdx? (fun s => !s.inUse) with
      | none => simp [hi] at h
      | some slot =>
        simp only [hi, Option.some.injEq] at h
        have hempty : rememberedDirections states fact.trackId = [] := by
          clear h hi
          induction states with
          | nil => rfl
          | cons s states ih =>
            unfold findRuleFactState at ih hf
            rw [List.findIdx?_cons] at hf
            split at hf
            · cases hf
            · next hs =>
              rw [rememberedDirections, if_neg hs]
              exact ih (by simpa using hf)
        rw [← h, rememberedDirections_allocate _ hf hi, hempty]
  rw [ruleFactSeen_eq, ruleFactSeen_eq, hdirs, ← Bool.and_or_distrib_left]
  congr 1
  by_cases ht : f.trackId = fact.trackId
  · rw [if_pos ht, ht, List.contains_cons]
    simp only [holdsFact, List.any_cons, List.any_nil, Bool.or_false, ht, beq_self_eq_true,
      Bool.true_and]
    rw [Bool.or_comm, BEq.comm]
  · rw [if_neg ht]
    simp [holdsFact, Ne.symm ht]

/-- The table holds exactly the tracks and directions of `facts`. -/
def Remembers (states : List MeEventRuleFactState) (facts : List MeRuleFact) : Prop :=
  ∀ f, validDirection f.direction = true → ruleFactSeen states f = holdsFact facts f

theorem remembers_cleared : Remembers (List.replicate meAnalyticsMaxTracks {}) [] := by
  intro f _
  have : ∀ n, rememberedDirections (List.replicate n {}) f.trackId = [] := by
    intro n
    induction n with
    | zero => rfl
    | succ n ih => rw [List.replicate_succ, rememberedDirections, if_neg (by simp), ih]
  rw [ruleFactSeen_eq, this]
  simp [holdsFact]

theorem rememberRuleFacts_remembers {e e' : MeEventEngine} {facts : List MeRuleFact}
    (h : rememberRuleFacts e facts = (e', true)) : Remembers e'.ruleFactStates facts := by
  have go : ∀ (facts : List MeRuleFact) (e : MeEventEngine) (before : List MeRuleFact),
      Remembers e.ruleFactStates before → rememberRuleFacts.go e facts = (e', true) →
      Remembers e'.ruleFactStates (before ++ facts) := by
    intro facts
    induction facts with
    | nil =>
      intro e before hb h
      cases h
      simpa using hb
    | cons fact facts ih =>
      intro e before hb h
      unfold rememberRuleFacts.go at h
      cases hr : rememberRuleFact e.ruleFactStates fact with
      | none => simp [hr] at h
      | some states =>
        simp only [hr] at h
        have hstates : Remembers states (before ++ [fact]) := by
          intro f hf
          rw [rememberRuleFact_seen hr, hb f hf, hf, Bool.true_and]
          simp [holdsFact]
        simpa using ih { e with ruleFactStates := states } (before ++ [fact]) hstates h
  simpa using go facts (clearRuleFactStates e) [] remembers_cleared h

/-! ## Summaries -/

/-- The part of a delta that belongs to direction `d`. -/
def inDirection (d : MeRuleDirection) (deltaIn deltaOut : Nat) : Nat :=
  match d with
  | .in => deltaIn
  | .out => deltaOut
  | _ => 0

section Summary

variable {d : MeRuleDirection} {e : MeEventEngine} {o : MeNormalizedObservation}

/-- What the loop of `matching_rules` holds behind the facts `before`. -/
structure Summed (e : MeEventEngine) (before : List MeRuleFact) (s : MeRuleSummary) : Prop where
  facts : s.facts = before.filter (factMatches e.config)
  deltaIn : s.deltaIn = s.facts.countP fun f =>
    f.direction == .in && !ruleFactSeen e.ruleFactStates f
  deltaOut : s.deltaOut = s.facts.countP fun f =>
    f.direction == .out && !ruleFactSeen e.ruleFactStates f
  unseen : s.newMatchCount = 0 → ∀ f ∈ s.facts, ruleFactSeen e.ruleFactStates f = true
  matched : s.matchCount = 0 → s.facts = []

theorem saturatingAddU32_eq {a b : Nat} (h : a + b < 2 ^ 32) : saturatingAddU32 a b = a + b := by
  unfold saturatingAddU32
  rw [if_neg]
  simp only [uint32Max]
  omega

/-- A counter that was raised is not zero, capped or not. -/
theorem succ_capped_ne (n : Nat) : min (n + 1) uint32Max ≠ 0 := by
  have : 0 < uint32Max := by decide
  omega

theorem summaryAddTrack_fields (s : MeRuleSummary) (trackId : Nat) :
    (summaryAddTrack s trackId).facts = s.facts ∧ (summaryAddTrack s trackId).deltaIn = s.deltaIn ∧
      (summaryAddTrack s trackId).deltaOut = s.deltaOut ∧
      (summaryAddTrack s trackId).newMatchCount = s.newMatchCount ∧
      (summaryAddTrack s trackId).matchCount = s.matchCount := by
  unfold summaryAddTrack
  split <;> exact ⟨rfl, rfl, rfl, rfl, rfl⟩

/-- The fields of `summaryNewMatch` that the deltas depend on. -/
theorem summaryNewMatch_fields (s : MeRuleSummary) (rule : MeRuleFact) :
    (summaryNewMatch s rule).facts = s.facts ∧
      (summaryNewMatch s rule).deltaIn =
        (if rule.direction == .in then saturatingAddU32 s.deltaIn 1 else s.deltaIn) ∧
      (summaryNewMatch s rule).deltaOut =
        (if rule.direction == .out then saturatingAddU32 s.deltaOut 1 else s.deltaOut) ∧
      (summaryNewMatch s rule).newMatchCount = min (s.newMatchCount + 1) uint32Max ∧
      (summaryNewMatch s rule).matchCount = s.matchCount := by
  unfold summaryNewMatch
  simp only [summaryAddTrack_fields]
  cases rule.direction <;> exact ⟨rfl, rfl, rfl, rfl, rfl⟩

/-- What the summary does with a matching fact that it does not have. -/
def takeFact (e : MeEventEngine) (s : MeRuleSummary) (rule : MeRuleFact) : MeRuleSummary :=
  let s := { s with
    facts := s.facts ++ [rule]
    first := s.first.or (some rule)
    matchCount := min (s.matchCount + 1) uint32Max }
  if ruleFactSeen e.ruleFactStates rule then s else summaryNewMatch s rule

/-- Valid facts differ, so each matching one is taken. -/
theorem summaryMatch_eq {before : List MeRuleFact} {s : MeRuleSummary} {rule : MeRuleFact}
    (hfacts : s.facts = before.filter (factMatches e.config))
    (hlen : before.length < meAnalyticsMaxRuleFacts)
    (hnew : ∀ r ∈ before, r.ruleId = rule.ruleId → r.trackId ≠ rule.trackId) :
    summaryMatch e s rule = if factMatches e.config rule then takeFact e s rule else s := by
  have hfew : s.facts.length < meAnalyticsMaxRuleFacts := by
    rw [hfacts]
    exact Nat.lt_of_le_of_lt (List.length_filter_le _ _) hlen
  have hfresh : summaryHasFact s rule = false := by
    unfold summaryHasFact
    rw [List.any_eq_false]
    intro r hr
    rw [hfacts, List.mem_filter] at hr
    simp only [Bool.and_eq_true, beq_iff_eq]
    exact fun hsame => hnew r hr.1 hsame.2 hsame.1.2
  unfold summaryMatch
  rw [hfresh, if_neg Bool.false_ne_true, if_pos hfew]
  rfl

theorem Summed.step {before : List MeRuleFact} {s : MeRuleSummary} {rule : MeRuleFact}
    (h : Summed e before s) (hlen : before.length < meAnalyticsMaxRuleFacts)
    (hnew : ∀ r ∈ before, r.ruleId = rule.ruleId → r.trackId ≠ rule.trackId) :
    Summed e (before ++ [rule]) (summaryMatch e s rule) := by
  rw [summaryMatch_eq h.facts hlen hnew]
  by_cases hm : factMatches e.config rule = true
  · rw [if_pos hm]
    have hfacts : s.facts ++ [rule] = (before ++ [rule]).filter (factMatches e.config) := by
      simp [h.facts, hm]
    have hbound : ∀ p : MeRuleFact → Bool, s.facts.countP p + 1 < 2 ^ 32 := fun p => by
      have hcount := List.countP_le_length (p := p) (l := s.facts)
      have hfilter := List.length_filter_le (factMatches e.config) before
      rw [← h.facts] at hfilter
      simp only [meAnalyticsMaxRuleFacts] at hlen
      omega
    unfold takeFact
    simp only
    split
    · next hseen =>
      refine ⟨hfacts, ?_, ?_, ?_, ?_⟩
      · simp [List.countP_append, h.deltaIn, hseen]
      · simp [List.countP_append, h.deltaOut, hseen]
      · intro hz f hf
        rcases List.mem_append.mp hf with hf | hf
        · exact h.unseen hz f hf
        · exact List.mem_singleton.mp hf ▸ hseen
      · exact fun hz => absurd hz (succ_capped_ne _)
    · next hseen =>
      have hseen' : ruleFactSeen e.ruleFactStates rule = false := by simpa using hseen
      obtain ⟨hf, hin, hout, hcount, hmatch⟩ := summaryNewMatch_fields
        { s with
          facts := s.facts ++ [rule]
          first := s.first.or (some rule)
          matchCount := min (s.matchCount + 1) uint32Max } rule
      refine ⟨hf.trans hfacts, ?_, ?_, ?_, ?_⟩
      · rw [hin, hf, List.countP_append, ← h.deltaIn]
        have := hbound fun f => f.direction == .in && !ruleFactSeen e.ruleFactStates f
        rw [← h.deltaIn] at this
        simp only [saturatingAddU32_eq this, List.countP_singleton, hseen', Bool.not_false,
          Bool.and_true]
        split <;> rfl
      · rw [hout, hf, List.countP_append, ← h.deltaOut]
        have := hbound fun f => f.direction == .out && !ruleFactSeen e.ruleFactStates f
        rw [← h.deltaOut] at this
        simp only [saturatingAddU32_eq this, List.countP_singleton, hseen', Bool.not_false,
          Bool.and_true]
        split <;> rfl
      · exact fun hz => absurd (hcount ▸ hz) (succ_capped_ne _)
      · exact fun hz => absurd (hmatch ▸ hz) (succ_capped_ne _)
  · rw [if_neg hm]
    exact ⟨by simp [h.facts, hm], h.deltaIn, h.deltaOut, h.unseen, h.matched⟩

theorem Summed.all {rules : List MeRuleFact} {s : MeRuleSummary} {before : List MeRuleFact}
    (h : Summed e before s) (hlen : (before ++ rules).length ≤ meAnalyticsMaxRuleFacts)
    (hd : DistinctFacts (before ++ rules)) :
    Summed e (before ++ rules) (rules.foldl (summaryMatch e) s) := by
  induction rules generalizing before s with
  | nil => simpa using h
  | cons rule rules ih =>
    have hnew : ∀ r ∈ before, r.ruleId = rule.ruleId → r.trackId ≠ rule.trackId := fun r hr =>
      (List.pairwise_append.mp hd).2.2 r hr rule List.mem_cons_self
    have happ : before ++ rule :: rules = (before ++ [rule]) ++ rules := by simp
    rw [happ] at hlen hd ⊢
    exact ih (h.step (by simp at hlen; omega) hnew) hlen hd

/-- The summary takes the matching facts one by one. -/
theorem foldl_summaryMatch {rules : List MeRuleFact} {s : MeRuleSummary} {before : List MeRuleFact}
    (h : Summed e before s) (hlen : (before ++ rules).length ≤ meAnalyticsMaxRuleFacts)
    (hd : DistinctFacts (before ++ rules)) :
    rules.foldl (summaryMatch e) s =
      (rules.filter (factMatches e.config)).foldl (takeFact e) s := by
  induction rules generalizing before s with
  | nil => rfl
  | cons rule rules ih =>
    have hnew : ∀ r ∈ before, r.ruleId = rule.ruleId → r.trackId ≠ rule.trackId := fun r hr =>
      (List.pairwise_append.mp hd).2.2 r hr rule List.mem_cons_self
    have happ : before ++ rule :: rules = (before ++ [rule]) ++ rules := by simp
    rw [happ] at hlen hd
    have hshort : before.length < meAnalyticsMaxRuleFacts := by
      simp only [List.append_assoc, List.length_append, List.length_cons] at hlen
      omega
    rw [List.foldl_cons, ih (h.step hshort hnew) hlen hd, summaryMatch_eq h.facts hshort hnew]
    by_cases hm : factMatches e.config rule = true
    · rw [if_pos hm, List.filter_cons_of_pos hm, List.foldl_cons]
    · rw [if_neg hm, List.filter_cons_of_neg hm]

theorem matchingRules_eq (hv : meObservationValidate o = .ok ()) :
    matchingRules e o = (matchingFacts e.config o).foldl (takeFact e) {} := by
  unfold matchingRules matchingFacts
  split
  · rfl
  · have hsum : Summed e [] {} := ⟨rfl, rfl, rfl, by simp, fun _ => rfl⟩
    exact foldl_summaryMatch hsum (observationValid_of_validate hv).rules_le (rules_distinct hv)

/-- What the deltas of one observation need to know of its summary. -/
structure Summarises (d : MeRuleDirection) (config : MeAnalyticsConfig)
    (last : Option MeNormalizedObservation) (o : MeNormalizedObservation) (s : MeRuleSummary) :
    Prop where
  facts : s.facts = matchingFacts config o
  delta : inDirection d s.deltaIn s.deltaOut = freshCount d config last o
  quiet : s.newMatchCount = 0 → freshCount d config last o = 0
  absent : s.matchCount = 0 → matchingFacts config o = []

theorem matchingRules_summarises {last : Option MeNormalizedObservation}
    (hd : d = .in ∨ d = .out) (hv : meObservationValidate o = .ok ())
    (hr : Remembers e.ruleFactStates (last.elim [] (matchingFacts e.config))) :
    Summarises d e.config last o (matchingRules e o) := by
  have ho := observationValid_of_validate hv
  unfold matchingRules
  by_cases hocc : (e.config.ruleType == .occupancy) = true
  · have hnone : ∀ o, matchingFacts e.config o = [] := fun o => by rw [matchingFacts, if_pos hocc]
    rw [if_pos hocc]
    refine ⟨(hnone o).symm, ?_, ?_, fun _ => hnone o⟩
    · rw [freshCount, hnone o]
      rcases hd with rfl | rfl <;> rfl
    · intro _
      rw [freshCount, hnone o]
      rfl
  · have hsum : Summed e ([] ++ o.rules) (o.rules.foldl (summaryMatch e) {}) :=
      Summed.all ⟨rfl, rfl, rfl, by simp, fun _ => rfl⟩ ho.rules_le (rules_distinct hv)
    have hfacts : (o.rules.foldl (summaryMatch e) {}).facts = matchingFacts e.config o := by
      rw [hsum.facts, matchingFacts, if_neg hocc]
      rfl
    have hseen : ∀ f ∈ matchingFacts e.config o, ruleFactSeen e.ruleFactStates f =
        holdsFact (last.elim [] (matchingFacts e.config)) f := by
      intro f hf
      rw [matchingFacts, if_neg hocc, List.mem_filter] at hf
      exact hr f (ho.rules f hf.1).2
    have hcount : ∀ d' : MeRuleDirection, (matchingFacts e.config o).countP (fun f =>
        f.direction == d' && !ruleFactSeen e.ruleFactStates f) = freshCount d' e.config last o :=
      fun d' => List.countP_congr fun f hf => by rw [hseen f hf]
    rw [if_neg hocc]
    refine ⟨hfacts, ?_, ?_, fun hz => hfacts ▸ hsum.matched hz⟩
    · rcases hd with rfl | rfl
      · rw [inDirection, hsum.deltaIn, hfacts, hcount]
      · rw [inDirection, hsum.deltaOut, hfacts, hcount]
    · intro hz
      rw [← hcount, List.countP_eq_zero]
      intro f hf
      simp [hsum.unseen hz f (hfacts.symm ▸ hf)]

end Summary

/-! ## The account of one direction -/

/-- An observation is charged its fresh facts, a record pays its delta. -/
def directionTariff (d : MeRuleDirection) :
    Tariff MeAnalyticsConfig MeNormalizedObservation MeAnalyticsEvent where
  kind r := phaseKind r.phase
  amount r := inDirection d r.deltaIn r.deltaOut
  charge := freshCount d
  limit := 2 ^ 32

/-- What the open event has not reported yet. -/
def pendingDelta (d : MeRuleDirection) (e : MeEventEngine) : Nat :=
  inDirection d e.pendingDeltaIn e.pendingDeltaOut

@[simp] theorem inDirection_zero (d : MeRuleDirection) : inDirection d 0 0 = 0 := by
  cases d <;> rfl

/-- No event is open, nothing is remembered and nothing is pending. -/
structure Idle (d : MeRuleDirection) (e : MeEventEngine) : Prop where
  active : e.active = false
  forgotten : e.ruleFactStates = List.replicate meAnalyticsMaxTracks {}
  nothing : pendingDelta d e = 0

/-- The open event remembers the facts of the latest observation and owes what is pending. -/
structure Open (d : MeRuleDirection) (e : MeEventEngine) (k : MeAnalyticsConfig)
    (last : MeNormalizedObservation) (owed had : Nat) : Prop where
  active : e.active = true
  config : e.config = k
  enabled : e.config.enabled = true
  remembers : Remembers e.ruleFactStates (matchingFacts k last)
  balance : owed < 2 ^ 32 → had + pendingDelta d e = owed

/-- The account of direction `d` describes the engine. -/
def Booked (d : MeRuleDirection) (e : MeEventEngine) :
    State MeAnalyticsConfig MeNormalizedObservation → Prop
  | .idle _ => Idle d e
  | .live config last owed had => Open d e config last owed had

/-- The fields the account depends on. -/
def bookPart (e : MeEventEngine) :
    Bool × MeAnalyticsConfig × List MeEventRuleFactState × Nat × Nat :=
  (e.active, e.config, e.ruleFactStates, e.pendingDeltaIn, e.pendingDeltaOut)

section Books

variable {d : MeRuleDirection} {e : MeEventEngine} {o : MeNormalizedObservation}
  {s : State MeAnalyticsConfig MeNormalizedObservation}

theorem Booked.congr {e' : MeEventEngine} (h : Booked d e s) (he : bookPart e' = bookPart e) :
    Booked d e' s := by
  simp only [bookPart, Prod.mk.injEq] at he
  obtain ⟨ha, hc, hs, hi, ho⟩ := he
  cases s with
  | idle _ => exact ⟨ha ▸ h.active, hs ▸ h.forgotten, by rw [pendingDelta, hi, ho]; exact h.nothing⟩
  | live config last owed had =>
    exact ⟨ha ▸ h.active, hc ▸ h.config, hc ▸ h.enabled, hs ▸ h.remembers,
      fun hl => by rw [pendingDelta, hi, ho]; exact h.balance hl⟩

theorem idle_clearRuntime (d : MeRuleDirection) (e : MeEventEngine) : Idle d (clearRuntime e) :=
  ⟨rfl, rfl, inDirection_zero d⟩

/-- Between two engines without an open event the account does not change. -/
theorem Booked.idle {e' : MeEventEngine} (h : Booked d e s) (ha : e.active = false)
    (h' : Idle d e') : Booked d e' s := by
  cases s with
  | idle _ => exact h'
  | live config last owed had => exact absurd (ha ▸ h.active) (by simp)

/-- The records a function emits continue the account, which describes its engine. -/
def Books (d : MeRuleDirection) (s : State MeAnalyticsConfig MeNormalizedObservation)
    (entries : List (Entry MeAnalyticsConfig MeNormalizedObservation MeAnalyticsEvent))
    (e : MeEventEngine) : Prop :=
  ∃ t, Run (directionTariff d) s entries t ∧ Booked d e t

theorem Books.nothing (h : Booked d e s) : Books d s [] e := ⟨s, .nil s, h⟩

theorem Books.append {s t : State MeAnalyticsConfig MeNormalizedObservation}
    {xs ys : List (Entry MeAnalyticsConfig MeNormalizedObservation MeAnalyticsEvent)}
    {e' : MeEventEngine} (hr : Run (directionTariff d) s xs t) (h : Books d t ys e') :
    Books d s (xs ++ ys) e' := by
  obtain ⟨u, hu, hb⟩ := h
  exact ⟨u, hr.append hu, hb⟩

theorem emitEnd_books (reason : MeEventReason) (personCount : Nat) (now : MeTimeline)
    (cooldown : Bool) (hb : Booked d e s) :
    Books d s ((emitEnd e o reason personCount now cooldown).emitted.map .record)
      (emitEnd e o reason personCount now cooldown).engine := by
  unfold emitEnd
  split
  · exact .nothing hb
  · next hact =>
    cases hi : incrementEventSeq e.activeEvent with
    | none => exact .nothing hb
    | some event =>
      cases s with
      | idle _ => exact absurd hb.active (by simpa using hact)
      | live config last owed had =>
        refine ⟨.idle none, .one (.closing ?_ fun hl => ?_), ?_⟩
        · simp only [directionTariff, endEvent, eventCopyObservationContext,
            eventCopyResponsibleTracks]
          split <;> rfl
        · rw [← hb.balance hl]
          simp only [directionTariff, endEvent, eventCopyObservationContext,
            eventCopyResponsibleTracks]
          split <;> rfl
        · exact ⟨rfl, rfl, inDirection_zero d⟩

theorem endAtLast_books (reason : MeEventReason) (hb : Booked d e s) :
    Books d s ((endAtLast e reason).emitted.map .record) (endAtLast e reason).engine := by
  unfold endAtLast
  split
  · exact emitEnd_books _ _ _ _ hb
  · exact .nothing hb

theorem processIdle_books {e₀ : MeEventEngine} {personCount : Nat} {condition : Bool}
    {now : MeTimeline} (hb : Idle d e) (hen : e.config.enabled = true) (hv : ObservationValid o)
    (hs : Summarises d e.config none o (matchingRules e₀ o)) :
    Books d (.idle (some (e.config, o)))
      ((processIdle e o (matchingRules e₀ o) personCount condition now).emitted.map .record)
      (processIdle e o (matchingRules e₀ o) personCount condition now).engine := by
  have hpart : bookPart (updateTriggerCandidate e condition now) = bookPart e := by
    unfold updateTriggerCandidate
    split
    · rfl
    · split <;> rfl
  have hb' : Idle d (updateTriggerCandidate e condition now) :=
    Booked.congr (s := .idle none) hb hpart
  have hconf : (updateTriggerCandidate e condition now).config = e.config :=
    congrArg (fun p => p.2.1) hpart
  unfold processIdle
  simp only
  generalize updateTriggerCandidate e condition now = e₁ at hb' hconf
  split
  · unfold emitStart
    cases hn : newEventId e₁ o.channelId o.streamEpoch with
    | none => exact ⟨_, .nil _, hb'.active, hb'.forgotten, hb'.nothing⟩
    | some ei =>
      obtain ⟨e', eventId⟩ := ei
      obtain ⟨rfl, -⟩ := newEventId_eq hn
      simp only
      generalize hstart : startEvent _ eventId o (matchingRules e₀ o) personCount = event
      obtain ⟨states, hst⟩ := rememberRuleFacts_matching (e := e₀) (o := o)
        { e₁ with nextEventSerial := e₁.nextEventSerial + 1, activeEvent := event } hv
      have hrem := rememberRuleFacts_remembers hst
      rw [hs.facts] at hrem
      rw [hst]
      have hamount : (directionTariff d).amount event =
          (directionTariff d).charge e.config none o := by
        rw [← hstart]
        exact hs.delta
      refine ⟨_, .one (.opening ?_), rfl, hconf,
        (congrArg MeAnalyticsConfig.enabled hconf).trans hen, hrem, fun _ => ?_⟩
      · rw [← hstart]
        rfl
      · rw [hamount]
        exact congrArg (_ + ·) hb'.nothing
  · exact .nothing hb'

/-- The account after the observation `o` is charged. -/
theorem Open.charge {config : MeAnalyticsConfig} {last : MeNormalizedObservation}
    {owed had δ : Nat} (hb : Open d e config last owed had) {e' : MeEventEngine}
    (hact : e'.active = true) (hconf : e'.config = e.config)
    (hrem : Remembers e'.ruleFactStates (matchingFacts config o))
    (hpend : pendingDelta d e + δ < 2 ^ 32 → pendingDelta d e' = pendingDelta d e + δ) :
    Open d e' config o (owed + δ) had := by
  refine ⟨hact, hconf.trans hb.config, hconf ▸ hb.enabled, hrem, fun hl => ?_⟩
  have := hb.balance (by omega)
  rw [hpend (by omega)]
  omega

theorem maybeEmitUpdate_books {personCount : Nat} {now : MeTimeline}
    {config : MeAnalyticsConfig} {last : MeNormalizedObservation} {owed had : Nat}
    (hb : Open d e config last owed had) :
    Books d (.live config last owed had) ((maybeEmitUpdate e o personCount now).emitted.map .record)
      (maybeEmitUpdate e o personCount now).engine := by
  have hsame : Booked d e (.live config last owed had) := hb
  unfold maybeEmitUpdate
  split
  · exact .nothing hsame
  split
  · exact .nothing hsame
  cases hi : incrementEventSeq e.activeEvent with
  | none => exact .nothing hsame
  | some event =>
    refine ⟨_, .one (.ongoing rfl), hb.active, hb.config, hb.enabled, hb.remembers, fun hl => ?_⟩
    exact (congrArg (_ + ·) (inDirection_zero d)).trans (hb.balance hl)

theorem processAbsent_books {personCount : Nat} {now : MeTimeline} (hb : Booked d e s) :
    Books d s ((processAbsent e o personCount now).emitted.map .record)
      (processAbsent e o personCount now).engine := by
  unfold processAbsent
  simp only
  generalize he' : (if e.absentSinceValid then e
    else { e with absentSinceUs := now.us, absentSinceValid := now.valid }) = e'
  have hb' : Booked d e' s := hb.congr (by rw [← he']; split <;> rfl)
  split
  · exact emitEnd_books _ _ _ _ hb'
  · exact .nothing hb'

/-- Marking an update adds the fresh facts to what is pending. -/
theorem pendingDelta_markUpdate (hd : d = .in ∨ d = .out) {personCount deltaIn deltaOut : Nat}
    {trackIds : List Nat} {reason : MeEventReason}
    (hl : pendingDelta d e + inDirection d deltaIn deltaOut < 2 ^ 32) :
    pendingDelta d (markUpdate e personCount deltaIn deltaOut trackIds reason) =
      pendingDelta d e + inDirection d deltaIn deltaOut := by
  have hone : ∀ pending δ : Nat, pending + δ < 2 ^ 32 →
      (if 0 < δ then saturatingAddU32 pending δ else pending) = pending + δ := by
    intro pending δ h
    split
    · exact saturatingAddU32_eq h
    · omega
  rcases hd with rfl | rfl <;> exact hone _ _ hl

theorem processPresent_books {personCount : Nat} {now : MeTimeline} {config : MeAnalyticsConfig}
    {last : MeNormalizedObservation} {owed had : Nat} {summary : MeRuleSummary}
    (hd : d = .in ∨ d = .out) (hact : e.active = true)
    (hpend : e.config.ruleType = .occupancy → freshCount d e.config (some last) o = 0)
    (hs : Summarises d e.config (some last) o summary)
    (hrem : Remembers e.ruleFactStates (matchingFacts e.config o)) (hconf : e.config = config)
    (hen : e.config.enabled = true) (hbal : owed < 2 ^ 32 → had + pendingDelta d e = owed) :
    Books d (.live config o (owed + freshCount d config (some last) o) had)
      ((processPresent e o summary personCount now).emitted.map .record)
      (processPresent e o summary personCount now).engine := by
  subst hconf
  unfold processPresent
  simp only
  -- whatever the branch, the pending delta grows by the fresh facts
  have key : ∀ e' : MeEventEngine, e'.active = true → e'.config = e.config →
      e'.ruleFactStates = e.ruleFactStates →
      (pendingDelta d e + freshCount d e.config (some last) o < 2 ^ 32 →
        pendingDelta d e' = pendingDelta d e + freshCount d e.config (some last) o) →
      Books d (.live e.config o (owed + freshCount d e.config (some last) o) had)
        ((maybeEmitUpdate e' o personCount now).emitted.map .record)
        (maybeEmitUpdate e' o personCount now).engine := by
    intro e' ha hc hstates hp
    refine maybeEmitUpdate_books ⟨ha, hc, hc ▸ hen, hstates ▸ hrem, fun hl => ?_⟩
    have := hbal (by omega)
    rw [hp (by omega)]
    omega
  split
  · next hocc =>
    have hzero := hpend (by simpa using hocc)
    split
    · refine key _ hact rfl rfl fun hl => ?_
      rw [hzero] at hl ⊢
      have hmark : pendingDelta d (markUpdate { e with absentSinceValid := false } personCount 0 0
          [] .countChanged) = pendingDelta d e + inDirection d 0 0 :=
        pendingDelta_markUpdate hd (by rw [inDirection_zero]; exact hl)
      rwa [inDirection_zero] at hmark
    · exact key _ hact rfl rfl fun _ => by rw [hzero]; rfl
  · split
    · refine key _ hact rfl rfl fun hl => ?_
      rw [← hs.delta] at hl ⊢
      exact pendingDelta_markUpdate hd hl
    · next hquiet => exact key _ hact rfl rfl fun _ => by rw [hs.quiet (by omega)]; rfl

theorem processCounted_books {personCount : Nat} {now : MeTimeline} (hd : d = .in ∨ d = .out)
    (hv : meObservationValidate o = .ok ()) (hen : e.config.enabled = true) (hb : Booked d e s) :
    Books d s (.input e.config o :: (processCounted e o personCount now).emitted.map .record)
      (processCounted e o personCount now).engine := by
  have ho := observationValid_of_validate hv
  unfold processCounted
  simp only
  cases s with
  | idle last =>
    have hs : Summarises d e.config none o (matchingRules e o) :=
      matchingRules_summarises hd hv (by rw [hb.forgotten]; exact remembers_cleared)
    rw [if_pos (by rw [hb.active]; rfl)]
    exact .append (.one .skipped) (processIdle_books hb hen ho hs)
  | live config last owed had =>
    obtain ⟨hact, rfl, -, hrem, hbal⟩ := hb
    have hs : Summarises d e.config (some last) o (matchingRules e o) :=
      matchingRules_summarises hd hv hrem
    have hocc0 : ∀ o', e.config.ruleType = .occupancy → matchingFacts e.config o' = [] :=
      fun o' h => by rw [matchingFacts, if_pos (by simp [h])]
    rw [if_neg (by simp [hact])]
    obtain ⟨e', h', hrem', ha', hc', hp'⟩ : ∃ e', (if e.config.ruleType == .occupancy then (e, true)
        else rememberRuleFacts e (matchingRules e o).facts) = (e', true) ∧
        Remembers e'.ruleFactStates (matchingFacts e.config o) ∧ e'.active = true ∧
        e'.config = e.config ∧ pendingDelta d e' = pendingDelta d e := by
      split
      · next hocc =>
        have hocc' : e.config.ruleType = .occupancy := by simpa using hocc
        refine ⟨e, rfl, ?_, hact, rfl, rfl⟩
        rw [hocc0 o hocc']
        rwa [hocc0 last hocc'] at hrem
      · obtain ⟨states, hst⟩ := rememberRuleFacts_matching (e := e) e ho
        refine ⟨_, hst, ?_, hact, rfl, rfl⟩
        rw [← hs.facts]
        exact rememberRuleFacts_remembers hst
    rw [h']
    simp only
    refine .append (.one .charged) ?_
    show Books d (.live e.config o (owed + freshCount d e.config (some last) o) had) _ _
    split
    · next hcond =>
      -- no matching fact, so nothing is charged
      have hnone : matchingFacts e.config o = [] := by
        by_cases hocc : e.config.ruleType = .occupancy
        · exact hocc0 o hocc
        · refine hs.absent ?_
          simpa [ruleCondition, hocc] using hcond
      have hzero : freshCount d e.config (some last) o = 0 := by rw [freshCount, hnone]; rfl
      rw [hzero]
      exact processAbsent_books (s := .live e.config o (owed + 0) had)
        ⟨ha', hc', hc' ▸ hen, hrem', fun hl => by rw [hp']; exact hbal hl⟩
    · refine processPresent_books hd ha' (fun h => ?_) (hc' ▸ hs) (hc' ▸ hrem') hc' (hc' ▸ hen)
        fun hl => by rw [hp']; exact hbal hl
      rw [hc'] at h ⊢
      rw [freshCount, hocc0 o h]
      rfl

/-- The step lemma: an accepted observation is charged, and its records are paid. -/
theorem processAccepted_books (hd : d = .in ∨ d = .out) (hv : meObservationValidate o = .ok ())
    (hb : Booked d e s) :
    Books d s (.input e.config o :: (processAccepted e o).emitted.map .record)
      (processAccepted e o).engine := by
  unfold processAccepted
  simp only
  split
  · next hdis =>
    cases s with
    | idle last =>
      exact ⟨_, .one .skipped, hb.active, hb.forgotten, inDirection_zero d⟩
    | live config last owed had => simp [hb.enabled] at hdis
  · next hdis =>
    have hen : e.config.enabled = true := by simpa using hdis
    exact processCounted_books
      (e := { (updateTracks e o (observationTimeline e.config o)).1 with
        latestPersonCount := (updateTracks e o (observationTimeline e.config o)).2
        latestPersonCountValid := true })
      hd hv hen (hb.congr rfl)

end Books

/-! ## Sessions -/

abbrev DeltaEntry := Entry MeAnalyticsConfig MeNormalizedObservation MeAnalyticsEvent

/-- A call in the trace: its records around the observation it accepts. A record that closes the
event of an earlier stream comes before the observation. -/
def Call.entries (e : MeEventEngine) (c : Call) : List DeltaEntry :=
  let emitted := (c.apply e).emitted
  match c with
  | .process (some o) =>
    if accepts e o then
      let n := if resets e o then (endAtLast e .streamReset).emitted.length else 0
      (emitted.take n).map .record ++ .input e.config o :: (emitted.drop n).map .record
    else emitted.map .record
  | _ => emitted.map .record

/-- The trace of a session: its accepted observations and records in order. -/
def sessionEntries (e : MeEventEngine) (calls : List Call) (deinit : Bool) : List DeltaEntry :=
  go e calls ++
    if deinit then (meEventEngineDeinit (runCalls e calls).1).emitted.map .record else []
where
  go (e : MeEventEngine) : List Call → List DeltaEntry
  | [] => []
  | c :: cs => c.entries e ++ go (c.apply e).engine cs

section Sessions

variable {d : MeRuleDirection} {e : MeEventEngine} {o : MeNormalizedObservation}
  {s : State MeAnalyticsConfig MeNormalizedObservation}

theorem acceptObservation_books (hd : d = .in ∨ d = .out) (hv : meObservationValidate o = .ok ())
    (hb : Booked d e s) (order : MeObservationOrder) (before : List MeAnalyticsEvent)
    (emitted : Nat) :
    Books d s (.input e.config o ::
        ((acceptObservation e o order before emitted).emitted.drop before.length).map .record)
      (acceptObservation e o order before emitted).engine := by
  have h := processAccepted_books (e := { e with
      order := order
      haveStream := true
      channelId := o.channelId.snprintf meAnalyticsChannelIdMax
      streamEpoch := o.streamEpoch
      lastObservation := o
      haveLastObservation := true }) hd hv (hb.congr rfl)
  unfold acceptObservation
  simp only [List.drop_left]
  exact h

/-- An accepting call: the records that close the open event, then the observation and its
records. -/
theorem Books.accepting {t : State MeAnalyticsConfig MeNormalizedObservation}
    {ends : List MeAnalyticsEvent} {e₁ : MeEventEngine} {order : MeObservationOrder} {n : Nat}
    (hd : d = .in ∨ d = .out) (hv : meObservationValidate o = .ok ())
    (hends : Run (directionTariff d) s (ends.map .record) t) (hb : Booked d e₁ t)
    (hc : e₁.config = e.config) (hacc : accepts e o = true)
    (hn : (if resets e o then (endAtLast e .streamReset).emitted.length else 0) = ends.length)
    (hp : meEventEngineProcess e (some o) = acceptObservation e₁ o order ends n) :
    Books d s (Call.entries e (.process (some o))) (meEventEngineProcess e (some o)).engine := by
  have htake : (acceptObservation e₁ o order ends n).emitted.take ends.length = ends := by
    simp [acceptObservation]
  unfold Call.entries Call.apply
  simp only [hacc, if_true, hn, hp, htake, ← hc]
  exact .append hends (acceptObservation_books hd hv hb order ends n)

theorem process_books (hd : d = .in ∨ d = .out) (hw : Wf e) (hb : Booked d e s)
    (observation : Option MeNormalizedObservation) :
    Books d s (Call.entries e (.process observation))
      (meEventEngineProcess e observation).engine := by
  cases observation with
  | none => exact .nothing hb
  | some o =>
    rcases process_cases hw o with ⟨hrej, ret, hp⟩ | ⟨hacc, hv, e₁, ends, n, hp, hbefore⟩
    · unfold Call.entries Call.apply
      simp only [hrej, Bool.false_eq_true, if_false]
      rw [hp]
      exact .nothing hb
    · rcases hbefore with ⟨hno, rfl, rfl⟩ | ⟨hreset, e', heq, hact, hf, he₁⟩
      · exact Books.accepting hd hv (.nil s) hb rfl hacc (by simp [hno]) hp
      · obtain ⟨t, hrun, hbt⟩ := endAtLast_books .streamReset hb
        rw [heq] at hrun hbt
        have hcleared := hbt.idle hact (idle_clearRuntime d e')
        have hbooked : Booked d e₁ t := by
          rcases he₁ with rfl | rfl
          · exact hcleared
          · exact hcleared.congr rfl
        refine Books.accepting hd hv hrun hbooked ?_ hacc (by simp [hreset, heq]) hp
        · rcases he₁ with rfl | rfl <;> exact congrArg Prod.fst hf

theorem close_books (hw : Wf e) (hb : Booked d e s) (reason : MeEventReason) :
    Books d s ((meEventEngineClose e reason).emitted.map .record)
      (meEventEngineClose e reason).engine := by
  unfold meEventEngineClose
  split
  · exact .nothing hb
  · obtain ⟨t, hrun, hbt⟩ := endAtLast_books reason hb
    rcases endAtLast_cases hw reason with ⟨err, heq⟩ | ⟨e', ends, heq, hact, -⟩
    · rw [heq]
      exact .nothing hb
    · rw [heq] at hrun hbt ⊢
      exact ⟨t, hrun, hbt.idle hact (idle_clearRuntime d e')⟩

theorem reconfigure_books (hw : Wf e) (hb : Booked d e s) (config : Option MeAnalyticsConfig)
    (configVersion : Nat) :
    Books d s ((meEventEngineReconfigure e config configVersion).emitted.map .record)
      (meEventEngineReconfigure e config configVersion).engine := by
  unfold meEventEngineReconfigure
  cases config with
  | none => exact .nothing hb
  | some config =>
    simp only
    split
    · exact .nothing hb
    split
    · exact .nothing hb
    · obtain ⟨t, hrun, hbt⟩ :=
        endAtLast_books (if config.enabled then .reconfigured else .analyticsDisabled) hb
      rcases endAtLast_cases hw (if config.enabled then .reconfigured else .analyticsDisabled) with
        ⟨err, heq⟩ | ⟨e', ends, heq, hact, -⟩
      · rw [heq]
        exact .nothing hb
      · rw [heq] at hrun hbt ⊢
        exact ⟨t, hrun, hbt.idle hact ⟨rfl, rfl, inDirection_zero d⟩⟩

theorem deinit_books (hw : Wf e) (hb : Booked d e s) :
    Books d s ((meEventEngineDeinit e).emitted.map .record) (meEventEngineDeinit e).engine := by
  obtain ⟨t, hrun, hbt⟩ := endAtLast_books .processRestart hb
  unfold meEventEngineDeinit
  rcases endAtLast_cases hw .processRestart with ⟨err, heq⟩ | ⟨e', ends, heq, hact, -⟩
  · rw [heq]
    exact .nothing hb
  · rw [heq] at hrun hbt ⊢
    exact ⟨t, hrun, hbt.idle hact ⟨rfl, rfl, inDirection_zero d⟩⟩

theorem Call.entries_books (hd : d = .in ∨ d = .out) (hw : Wf e) (hb : Booked d e s) (c : Call) :
    Books d s (c.entries e) (c.apply e).engine := by
  cases c with
  | process observation => exact process_books hd hw hb observation
  | close reason => exact close_books hw hb reason
  | reconfigure config configVersion => exact reconfigure_books hw hb config configVersion

/-- The run lemma: the trace of a session is a run of the account. -/
theorem sessionEntries_books (hd : d = .in ∨ d = .out) (hw : Wf e) (hb : Booked d e s)
    (calls : List Call) (deinit : Bool) :
    Books d s (sessionEntries e calls deinit) (session e calls deinit).1 := by
  have hcalls : Books d s (sessionEntries.go e calls) (runCalls e calls).1 := by
    induction calls generalizing e s with
    | nil => exact .nothing hb
    | cons c cs ih =>
      obtain ⟨t, hrun, hbt⟩ := Call.entries_books hd hw hb c
      exact .append hrun (ih (Call.apply_good hw c).wf hbt)
  obtain ⟨t, hrun, hbt⟩ := hcalls
  unfold sessionEntries session
  refine .append hrun ?_
  cases deinit with
  | false => exact .nothing hbt
  | true => exact deinit_books (runCalls_good hw calls).1 hbt

/-- The records of the trace are those handed to the sink. -/
theorem sessionEntries_outputs (e : MeEventEngine) (calls : List Call) (deinit : Bool) :
    outputs (sessionEntries e calls deinit) = records (session e calls deinit).2 := by
  have hcall : ∀ (e : MeEventEngine) (c : Call), outputs (c.entries e) = (c.apply e).emitted := by
    intro e c
    unfold Call.entries
    simp only
    split
    · split
      · have happ : ∀ xs ys : List MeAnalyticsEvent, ∀ o : MeNormalizedObservation,
            outputs (xs.map (Entry.record : _ → DeltaEntry) ++ .input e.config o ::
              ys.map .record) = xs ++ ys := fun xs ys o => by
          rw [outputs_append, outputs_records]
          exact congrArg (xs ++ ·) (outputs_records ys)
        rw [happ, List.take_append_drop]
      · exact outputs_records _
    · exact outputs_records _
  have hgo : outputs (sessionEntries.go e calls) = records (runCalls e calls).2 := by
    induction calls generalizing e with
    | nil => rfl
    | cons c cs ih =>
      rw [sessionEntries.go, outputs_append, hcall, ih]
      rfl
  unfold sessionEntries session
  rw [outputs_append, hgo]
  cases deinit with
  | false => simp [outputs]
  | true => simp [records]

end Sessions

/-- **Direction deltas are conserved.** Every ended lifecycle of a session starts behind the
observation that opened it and keeps its configuration; and in each direction its records report as
many crossings as its accepted observations bring fresh matching facts, while these fit in 32
bits. -/
theorem deltas_conserved {config : Option MeAnalyticsConfig} {configVersion : Nat}
    {e : MeEventEngine} (h : meEventEngineInit config configVersion = .ok e) (calls : List Call)
    (deinit : Bool) {pre mid suf : List DeltaEntry} {start fin : MeAnalyticsEvent}
    (htrace : sessionEntries e calls deinit = pre ++ .record start :: mid ++ .record fin :: suf)
    (hstart : start.phase = .start) (hfin : fin.phase = .end_)
    (hmid : ∀ r, .record r ∈ mid → r.phase = .update) :
    ∃ pre' k o, pre = pre' ++ [.input k o] ∧ (∀ x ∈ inputs mid, x.1 = k) ∧
      ∀ d : MeRuleDirection, d = .in ∨ d = .out →
        charges (directionTariff d) k none (o :: (inputs mid).map Prod.snd) < 2 ^ 32 →
        paid (directionTariff d) (.record start :: mid ++ [.record fin]) =
          charges (directionTariff d) k none (o :: (inputs mid).map Prod.snd) := by
  obtain ⟨hw, -⟩ := meEventEngineInit_wf h
  have hidle : ∀ d, Booked d e (.idle none) := by
    intro d
    unfold meEventEngineInit at h
    split at h
    · cases h
    · split at h
      · cases h
      · cases h
        exact ⟨rfl, rfl, inDirection_zero d⟩
  have hset : ∀ d : MeRuleDirection, d = .in ∨ d = .out → ∃ pre' k o, pre = pre' ++ [.input k o] ∧
      (∀ x ∈ inputs mid, x.1 = k) ∧
      (charges (directionTariff d) k none (o :: (inputs mid).map Prod.snd) < 2 ^ 32 →
        (directionTariff d).amount start + paid (directionTariff d) mid +
          (directionTariff d).amount fin =
        charges (directionTariff d) k none (o :: (inputs mid).map Prod.snd)) := by
    intro d hd
    obtain ⟨t, hrun, -⟩ := sessionEntries_books hd hw (hidle d) calls deinit
    rw [htrace] at hrun
    exact hrun.settled (by simp [directionTariff, hstart, phaseKind])
      (by simp [directionTariff, hfin, phaseKind])
      (fun r hr => by simp [directionTariff, hmid r hr, phaseKind])
  obtain ⟨pre', k, o, rfl, hk, -⟩ := hset .in (.inl rfl)
  refine ⟨pre', k, o, rfl, hk, fun d hd hl => ?_⟩
  obtain ⟨pre'', k', o', hpre, -, hsum⟩ := hset d hd
  obtain ⟨rfl, hlast⟩ := List.append_inj' hpre rfl
  cases hlast
  rw [← hsum hl]
  simp [paid, Nat.add_assoc]

/-! ### A crossing held back by the update interval -/

def lineConfig : MeAnalyticsConfig := { demoConfig with ruleType := .lineCross }

def lineFact (direction : MeRuleDirection) (trackId : Nat) : MeRuleFact where
  ruleId := meAnalyticsConfigDefaults.ruleId
  ruleType := .lineCross
  direction := direction
  scoreQ := 9000
  trackId := trackId

def lineEngine : MeEventEngine := { config := lineConfig, configVersion := 1 }

/-- Track 7 enters; in the next frame it is still there and track 8 leaves. -/
def lineFirst : MeNormalizedObservation := { demoObservation 1 1 with rules := [lineFact .in 7] }

def lineSecond : MeNormalizedObservation :=
  { demoObservation 1 2 with rules := [lineFact .in 7, lineFact .out 8] }

def lineCalls : List Call :=
  [.process (some lineFirst), .process (some lineSecond), .close .disappeared]

def lineRecord (i : Nat) : MeAnalyticsEvent :=
  (records (session lineEngine lineCalls false).2).getD i .zero

theorem line_facts :
    sessionEntries lineEngine lineCalls false = [.input lineConfig lineFirst] ++
        .record (lineRecord 0) :: [.input lineConfig lineSecond] ++ .record (lineRecord 1) :: [] ∧
      (lineRecord 0).phase = .start ∧ (lineRecord 1).phase = .end_ ∧
      ((lineRecord 0).deltaIn, (lineRecord 0).deltaOut) = (1, 0) ∧
      ((lineRecord 1).deltaIn, (lineRecord 1).deltaOut) = (0, 1) := by
  decide +kernel

theorem deltas_conserved_line :
    ((lineRecord 0).deltaIn, (lineRecord 0).deltaOut) = (1, 0) ∧
    ((lineRecord 1).deltaIn, (lineRecord 1).deltaOut) = (0, 1) ∧
    ∃ pre' k o, [Entry.input lineConfig lineFirst] = pre' ++ [(.input k o : DeltaEntry)] ∧
      (∀ x ∈ inputs [(.input lineConfig lineSecond : DeltaEntry)], x.1 = k) ∧
      ∀ d : MeRuleDirection, d = .in ∨ d = .out →
        charges (directionTariff d) k none (o ::
          (inputs [(.input lineConfig lineSecond : DeltaEntry)]).map Prod.snd) < 2 ^ 32 →
        paid (directionTariff d) (.record (lineRecord 0) :: [.input lineConfig lineSecond] ++
            [.record (lineRecord 1)]) =
          charges (directionTariff d) k none (o ::
            (inputs [(.input lineConfig lineSecond : DeltaEntry)]).map Prod.snd) := by
  obtain ⟨htrace, hstart, hfin, h0, h1⟩ := line_facts
  exact ⟨h0, h1, @deltas_conserved (some lineConfig) 0 lineEngine rfl lineCalls false _ _ _ _ _
    htrace hstart hfin (by simp)⟩

end FlowAlarm.Engine
