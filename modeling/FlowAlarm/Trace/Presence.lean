import FlowAlarm.Data.Keyed
import FlowAlarm.Data.Slots
import FlowAlarm.Trace.Watch

/-!
# The presence of subjects

Look by look, a subject is seen, said to have left, or not mentioned. It is
confirmed once it has been seen often or long enough in a row, and forgotten
when it is missed before that, or later for the grace time. The side of a border
it stands on changes once it has been seen on the other side for the debounce
time.

A roster holds the lives of many subjects, up to a capacity. As long as it is
never full, each life is the subject's own (`round_own`).
-/

namespace FlowAlarm.Trace.Presence

open FlowAlarm.Keyed Watch

/-- `countLimit` is where counting stops. -/
structure Rates where
  confirmCount : ℕ
  confirm : ℕ
  debounce : ℕ
  grace : ℕ
  countLimit : ℕ

inductive Look where
  | missed
  | left
  | seen (inside : Bool)
  deriving DecidableEq

def Look.isSeen : Look → Bool
  | .seen _ => true
  | _ => false

structure Life where
  present : Bool
  confirmed : Bool
  count : ℕ
  firstSeen : Option ℤ
  lastSeen : Option ℤ
  inside : Bool
  /-- Since when it has been seen on the other side. -/
  crossing : Option ℤ
  deriving DecidableEq

def Life.counted (l : Life) : Bool := l.present && l.confirmed && l.inside

/-! ## One life -/

section

variable (r : Rates) (now : Option ℤ)

def enough (count : ℕ) (firstSeen : Option ℤ) : Bool :=
  decide (0 < r.confirmCount ∧ r.confirmCount ≤ count) || elapsed firstSeen now r.confirm

def first (inside : Bool) : Life where
  present := true
  confirmed := enough r now 1 now
  count := 1
  firstSeen := now
  lastSeen := now
  inside := inside
  crossing := none

def cross (inside : Bool) (l : Life) : Life :=
  if inside = l.inside then { l with crossing := none }
  else if r.debounce = 0 ∨ now = none then { l with inside := inside, crossing := none }
  else if l.crossing = none then { l with crossing := now }
  else if elapsed l.crossing now r.debounce then { l with inside := inside, crossing := none }
  else l

def confirm (l : Life) : Life :=
  if l.confirmed then l
  else
    let count := min (l.count + 1) r.countLimit
    { l with count := count, confirmed := enough r now count l.firstSeen }

def again (inside : Bool) (l : Life) : Life :=
  { confirm r now (cross r now inside l) with present := true, lastSeen := now }

/-- Whether a subject that is not there is forgotten. -/
def forgotten (l : Life) : Bool :=
  !l.confirmed || r.grace == 0 || elapsed l.lastSeen now r.grace

def missed (l : Life) : Option Life :=
  if forgotten r now l then none else some { l with present := false }

def step (look : Look) (life : Option Life) : Option Life :=
  match look, life with
  | .left, _ => none
  | .missed, none => none
  | .missed, some l => missed r now l
  | .seen inside, none => some (first r now inside)
  | .seen inside, some l => some (again r now inside l)

end

/-- The life after the looks, newest first. -/
def lifeAfter (r : Rates) : List (Option ℤ × Look) → Option Life
  | [] => none
  | (now, look) :: h => step r now look (lifeAfter r h)

section

variable {r : Rates} {now : Option ℤ} {inside : Bool} {l : Life}

@[simp] theorem cross_confirmed : (cross r now inside l).confirmed = l.confirmed := by
  unfold cross
  split_ifs <;> rfl

@[simp] theorem cross_count : (cross r now inside l).count = l.count := by
  unfold cross
  split_ifs <;> rfl

@[simp] theorem cross_firstSeen : (cross r now inside l).firstSeen = l.firstSeen := by
  unfold cross
  split_ifs <;> rfl

theorem confirmed_again : (again r now inside l).confirmed =
    (l.confirmed || enough r now (min (l.count + 1) r.countLimit) l.firstSeen) := by
  unfold again confirm
  split <;> next h => simp_all

theorem again_eq : again r now inside l =
    { confirm r now (cross r now inside { l with present := true }) with lastSeen := now } := by
  unfold again confirm cross
  split_ifs <;> rfl

theorem count_again (h : l.confirmed = false) :
    (again r now inside l).count = min (l.count + 1) r.countLimit ∧
      (again r now inside l).firstSeen = l.firstSeen := by
  simp [again, confirm, h]

theorem missed_eq_some {l' : Life} (h : missed r now l = some l') :
    forgotten r now l = false ∧ l' = { l with present := false } := by
  unfold missed at h
  split at h
  · cases h
  · next hno => exact ⟨by simpa using hno, (Option.some.inj h).symm⟩

theorem inside_again (h : inside = l.inside) : (again r now inside l).inside = l.inside := by
  unfold again confirm cross
  rw [if_pos h]
  split_ifs <;> rfl

/-- Seen inside only, a subject stays inside. -/
theorem inside_lifeAfter {h : List (Option ℤ × Look)} (hin : ∀ x ∈ h, x.2 ≠ .seen false) {l : Life}
    (hl : lifeAfter r h = some l) : l.inside = true := by
  induction h generalizing l with
  | nil => cases hl
  | cons x h ih =>
    obtain ⟨now, look⟩ := x
    rw [List.forall_mem_cons] at hin
    cases look with
    | left => cases hl
    | missed =>
      cases hprev : lifeAfter r h with
      | none => simp [lifeAfter, step, hprev] at hl
      | some p =>
        simp only [lifeAfter, step, hprev] at hl
        have hp : p.inside = true := ih hin.2 hprev
        rw [(missed_eq_some hl).2]
        exact hp
    | seen inside =>
      cases inside with
      | false => exact absurd rfl hin.1
      | true =>
        cases hprev : lifeAfter r h with
        | none =>
          simp only [lifeAfter, step, hprev, Option.some.injEq] at hl
          rw [← hl]
          rfl
        | some p =>
          simp only [lifeAfter, step, hprev, Option.some.injEq] at hl
          have hp : p.inside = true := ih hin.2 hprev
          rw [← hl, inside_again hp.symm, hp]

/-- A subject is present where it was seen last. -/
theorem present_lifeAfter {h : List (Option ℤ × Look)} {look : Look} {l : Life}
    (hl : lifeAfter r ((now, look) :: h) = some l) : l.present = look.isSeen := by
  cases look with
  | left => cases hl
  | missed =>
    cases hprev : lifeAfter r h with
    | none => simp [lifeAfter, step, hprev] at hl
    | some p =>
      simp only [lifeAfter, step, hprev] at hl
      rw [(missed_eq_some hl).2]
      rfl
  | seen inside =>
    cases hprev : lifeAfter r h with
    | none =>
      simp only [lifeAfter, step, hprev, Option.some.injEq] at hl
      rw [← hl]
      rfl
    | some p =>
      simp only [lifeAfter, step, hprev, Option.some.injEq] at hl
      rw [← hl]
      rfl

end

/-! ## When a subject is confirmed -/

section

variable {r : Rates} {h stretch rest since : List (Option ℤ × Look)} {l : Life}

/-- The time of the newest look at which the subject was seen. -/
def lastSeenIn (h : List (Option ℤ × Look)) : Option ℤ := (h.find? (·.2.isSeen)).bind (·.1)

/-- A whole run of looks at which the subject was seen, newest first, before `rest`. -/
structure Stretch (stretch rest : List (Option ℤ × Look)) : Prop where
  seen : ∀ x ∈ stretch, x.2.isSeen = true
  whole : ∀ x ∈ rest.head?, x.2.isSeen = false

/-- The stretch is long enough, in looks or in time. -/
def Confirms (r : Rates) (stretch : List (Option ℤ × Look)) : Prop :=
  (0 < r.confirmCount ∧ r.confirmCount ≤ stretch.length) ∨
    ∃ x ∈ stretch.head?, ∃ y ∈ stretch.getLast?, elapsed y.1 x.1 r.confirm = true

/-- No look of `since`, newest first and after `before`, forgets a confirmed subject. -/
def Remembered (r : Rates) (before : List (Option ℤ × Look)) :
    List (Option ℤ × Look) → Prop
  | [] => True
  | (now, look) :: since =>
    Remembered r before since ∧ look ≠ .left ∧
      (look = .missed → r.grace ≠ 0 ∧ elapsed (lastSeenIn (since ++ before)) now r.grace = false)

theorem lifeAfter_lastSeen (hl : lifeAfter r h = some l) : l.lastSeen = lastSeenIn h := by
  induction h generalizing l with
  | nil => cases hl
  | cons x h ih =>
    obtain ⟨now, look⟩ := x
    cases look with
    | left => cases hl
    | missed =>
      cases hprev : lifeAfter r h with
      | none => simp [lifeAfter, step, hprev] at hl
      | some p =>
        simp only [lifeAfter, step, hprev] at hl
        rw [(missed_eq_some hl).2]
        simpa [lastSeenIn, Look.isSeen] using ih hprev
    | seen inside =>
      have hnow : l.lastSeen = now := by
        cases hprev : lifeAfter r h with
        | none =>
          simp only [lifeAfter, step, hprev, Option.some.injEq] at hl
          rw [← hl]
          rfl
        | some p =>
          simp only [lifeAfter, step, hprev, Option.some.injEq] at hl
          rw [← hl]
          rfl
      simpa [lastSeenIn, Look.isSeen] using hnow

theorem alive_of_seen {x : Option ℤ × Look} (hx : x.2.isSeen = true) :
    ∃ l, lifeAfter r (x :: h) = some l := by
  obtain ⟨now, look⟩ := x
  cases look with
  | missed => cases hx
  | left => cases hx
  | seen inside =>
    cases hprev : lifeAfter r h with
    | none => exact ⟨_, by rw [lifeAfter, hprev]; rfl⟩
    | some p => exact ⟨_, by rw [lifeAfter, hprev]; rfl⟩

theorem whole_of_none (hnone : lifeAfter r h = none) : ∀ x ∈ h.head?, x.2.isSeen = false := by
  intro x hx
  cases h with
  | nil => cases hx
  | cons y h =>
    obtain rfl := Option.some.inj hx
    by_contra hseen
    obtain ⟨l, hl⟩ := alive_of_seen (r := r) (h := h) (by simpa using hseen)
    rw [hnone] at hl
    cases hl

theorem Stretch.eq_takeWhile (hs : Stretch stretch rest) :
    stretch = (stretch ++ rest).takeWhile (·.2.isSeen) := by
  have hrest : rest.takeWhile (·.2.isSeen) = [] := by
    cases rest with
    | nil => rfl
    | cons x rest => exact List.takeWhile_cons_of_neg (by simp [hs.whole x rfl])
  rw [List.takeWhile_append_of_pos hs.seen, hrest, List.append_nil]

/-- A subject not confirmed yet has been seen at every look of its life. -/
theorem unconfirmed_stretch (hlim : 0 < r.countLimit) (hl : lifeAfter r h = some l)
    (hc : l.confirmed = false) :
    ∃ stretch rest, h = stretch ++ rest ∧ Stretch stretch rest ∧
      l.count = min stretch.length r.countLimit ∧
      ∃ x ∈ stretch.head?, ∃ y ∈ stretch.getLast?, l.firstSeen = y.1 ∧
        enough r x.1 l.count l.firstSeen = false := by
  induction h generalizing l with
  | nil => cases hl
  | cons x h ih =>
    obtain ⟨now, look⟩ := x
    cases hprev : lifeAfter r h with
    | none =>
      cases look with
      | left => cases hl
      | missed => simp [lifeAfter, step, hprev] at hl
      | seen inside =>
        simp only [lifeAfter, step, hprev, Option.some.injEq] at hl
        subst hl
        exact ⟨[(now, .seen inside)], h, rfl, ⟨by simp [Look.isSeen], whole_of_none hprev⟩,
          (min_eq_left (Nat.succ_le_of_lt hlim)).symm, _, rfl, _, rfl, rfl, hc⟩
    | some p =>
      cases look with
      | left => cases hl
      | missed =>
        simp only [lifeAfter, step, hprev] at hl
        obtain ⟨hno, rfl⟩ := missed_eq_some hl
        simp only [forgotten, Bool.or_eq_false_iff, Bool.not_eq_false'] at hno
        rw [hno.1.1] at hc
        cases hc
      | seen inside =>
        simp only [lifeAfter, step, hprev, Option.some.injEq] at hl
        subst hl
        rw [confirmed_again, Bool.or_eq_false_iff] at hc
        obtain ⟨hpc, henough⟩ := hc
        obtain ⟨hcount, hfirst⟩ := @count_again r now inside p hpc
        obtain ⟨stretch, rest, rfl, hs, hlen, -, -, y, hy, hyfirst, -⟩ := ih hprev hpc
        refine ⟨(now, .seen inside) :: stretch, rest, rfl, ⟨?_, hs.whole⟩, ?_, _, rfl, y, ?_, ?_, ?_⟩
        · exact List.forall_mem_cons.mpr ⟨rfl, hs.seen⟩
        · rw [hcount, hlen, List.length_cons]
          omega
        · rw [List.getLast?_cons, Option.mem_def.mp hy]
          rfl
        · rw [hfirst, hyfirst]
        · rw [hcount, hfirst]
          exact henough

theorem enough_iff (hcount : r.confirmCount ≤ r.countLimit) {x y : Option ℤ × Look}
    (hx : x ∈ stretch.head?) (hy : y ∈ stretch.getLast?) :
    enough r x.1 (min stretch.length r.countLimit) y.1 = true ↔ Confirms r stretch := by
  have hmin : r.confirmCount ≤ min stretch.length r.countLimit ↔
      r.confirmCount ≤ stretch.length := by omega
  simp only [enough, Confirms, Bool.or_eq_true, decide_eq_true_eq, hmin]
  constructor
  · rintro (h | h)
    · exact .inl h
    · exact .inr ⟨x, hx, y, hy, h⟩
  · rintro (h | ⟨x', hx', y', hy', h⟩)
    · exact .inl h
    · obtain rfl := Option.mem_unique hx hx'
      obtain rfl := Option.mem_unique hy hy'
      exact .inr h

theorem confirmed_split (hlim : 0 < r.countLimit) (hcount : r.confirmCount ≤ r.countLimit)
    (hl : lifeAfter r h = some l) (hc : l.confirmed = true) :
    ∃ since stretch rest, h = since ++ (stretch ++ rest) ∧ Stretch stretch rest ∧
      Confirms r stretch ∧ Remembered r (stretch ++ rest) since := by
  induction h generalizing l with
  | nil => cases hl
  | cons x h ih =>
    obtain ⟨now, look⟩ := x
    cases hprev : lifeAfter r h with
    | none =>
      cases look with
      | left => cases hl
      | missed => simp [lifeAfter, step, hprev] at hl
      | seen inside =>
        simp only [lifeAfter, step, hprev, Option.some.injEq] at hl
        subst hl
        have henough : enough r now 1 now = true := hc
        have hone : min [(now, Look.seen inside)].length r.countLimit = 1 :=
          min_eq_left (Nat.succ_le_of_lt hlim)
        exact ⟨[], [(now, .seen inside)], h, rfl, ⟨by simp [Look.isSeen], whole_of_none hprev⟩,
          (enough_iff hcount rfl rfl).mp (by rw [hone]; exact henough), trivial⟩
    | some p =>
      cases look with
      | left => cases hl
      | missed =>
        simp only [lifeAfter, step, hprev] at hl
        obtain ⟨hno, rfl⟩ := missed_eq_some hl
        simp only [forgotten, Bool.or_eq_false_iff, Bool.not_eq_false', beq_eq_false_iff_ne] at hno
        obtain ⟨since, stretch, rest, rfl, hs, hconf, hrem⟩ := ih hprev hno.1.1
        refine ⟨(now, .missed) :: since, stretch, rest, rfl, hs, hconf, hrem, by simp, fun _ => ?_⟩
        rw [← lifeAfter_lastSeen hprev]
        exact ⟨hno.1.2, hno.2⟩
      | seen inside =>
        cases hpc : p.confirmed with
        | true =>
          obtain ⟨since, stretch, rest, rfl, hs, hconf, hrem⟩ := ih hprev hpc
          exact ⟨(now, .seen inside) :: since, stretch, rest, rfl, hs, hconf, hrem, by simp,
            by simp⟩
        | false =>
          simp only [lifeAfter, step, hprev, Option.some.injEq] at hl
          subst hl
          rw [confirmed_again, hpc, Bool.false_or] at hc
          obtain ⟨stretch, rest, rfl, hs, hlen, x, hx, y, hy, hfirst, -⟩ :=
            unconfirmed_stretch hlim hprev hpc
          have hmin : min (p.count + 1) r.countLimit =
              min ((now, Look.seen inside) :: stretch).length r.countLimit := by
            rw [hlen, List.length_cons]
            omega
          have hlast : y ∈ ((now, Look.seen inside) :: stretch).getLast? := by
            rw [List.getLast?_cons, Option.mem_def.mp hy]
            rfl
          rw [hmin, hfirst] at hc
          exact ⟨[], (now, .seen inside) :: stretch, rest, rfl,
            ⟨List.forall_mem_cons.mpr ⟨rfl, hs.seen⟩, hs.whole⟩,
            (enough_iff hcount (x := (now, .seen inside)) rfl hlast).mp hc, trivial⟩

theorem confirmed_stretch (hlim : 0 < r.countLimit) (hcount : r.confirmCount ≤ r.countLimit)
    (hs : Stretch stretch rest) (hconf : Confirms r stretch) :
    ∃ l, lifeAfter r (stretch ++ rest) = some l ∧ l.confirmed = true := by
  have halive : ∃ l, lifeAfter r (stretch ++ rest) = some l := by
    cases hst : stretch with
    | nil =>
      rw [hst] at hconf
      rcases hconf with ⟨h0, hle⟩ | ⟨x, hx, -⟩
      · simp at hle
        omega
      · cases hx
    | cons x stretch => exact alive_of_seen (hs.seen x (by rw [hst]; exact List.mem_cons_self))
  obtain ⟨l, hl⟩ := halive
  refine ⟨l, hl, ?_⟩
  by_contra hc
  obtain ⟨stretch', rest', heq, hs', hlen, x, hx, y, hy, hfirst, hno⟩ :=
    unconfirmed_stretch hlim hl (by simpa using hc)
  -- both stretches are the looks at the head where the subject was seen
  obtain rfl : stretch = stretch' := by rw [hs.eq_takeWhile, heq, ← hs'.eq_takeWhile]
  rw [hlen, hfirst, (enough_iff hcount hx hy).mpr hconf] at hno
  cases hno

/-- **A subject is confirmed iff** it was once seen often or long enough in a row, and was not
forgotten since. -/
theorem confirmed_iff (hlim : 0 < r.countLimit) (hcount : r.confirmCount ≤ r.countLimit) :
    (∃ l, lifeAfter r h = some l ∧ l.confirmed = true) ↔
      ∃ since stretch rest, h = since ++ (stretch ++ rest) ∧ Stretch stretch rest ∧
        Confirms r stretch ∧ Remembered r (stretch ++ rest) since := by
  constructor
  · rintro ⟨l, hl, hc⟩
    exact confirmed_split hlim hcount hl hc
  · rintro ⟨since, stretch, rest, rfl, hs, hconf, hrem⟩
    induction since with
    | nil =>
      show ∃ l, lifeAfter r (stretch ++ rest) = some l ∧ l.confirmed = true
      exact confirmed_stretch hlim hcount hs hconf
    | cons x since ih =>
      obtain ⟨now, look⟩ := x
      obtain ⟨hrem, hleft, hmissed⟩ := hrem
      obtain ⟨p, hp, hpc⟩ := ih hrem
      cases look with
      | left => exact absurd rfl hleft
      | seen inside =>
        refine ⟨again r now inside p, by rw [List.cons_append, lifeAfter, hp]; rfl, ?_⟩
        rw [confirmed_again, hpc, Bool.true_or]
      | missed =>
        obtain ⟨hgrace, hgone⟩ := hmissed rfl
        rw [← lifeAfter_lastSeen hp] at hgone
        have hno : forgotten r now p = false := by simp [forgotten, hpc, hgrace, hgone]
        exact ⟨{ p with present := false },
          by rw [List.cons_append, lifeAfter, hp]; simp [step, missed, hno], hpc⟩

end

/-! ## Rosters -/

structure Subject (κ : Type) where
  key : κ
  life : Life

section

variable {κ : Type} [DecidableEq κ] (r : Rates) (capacity : ℕ) (now : Option ℤ)

/-- One look at one subject; a new one is turned away when the roster is full. -/
def note (roster : List (Subject κ)) (k : κ) : Look → List (Subject κ)
  | .missed => roster
  | .left => erase Subject.key k roster
  | .seen inside =>
    match lookup Subject.key k roster with
    | some s => insert Subject.key ⟨k, again r now inside s.life⟩ roster
    | none =>
      if roster.length < capacity then insert Subject.key ⟨k, first r now inside⟩ roster else roster

/-- What is left of a subject at the end of a round. -/
def settle (s : Subject κ) : Option (Subject κ) :=
  if s.life.present then some s else (missed r now s.life).map (⟨s.key, ·⟩)

def absent (s : Subject κ) : Subject κ := { s with life := { s.life with present := false } }

/-- One look at everyone. -/
def round (looks : List (κ × Look)) (roster : List (Subject κ)) : List (Subject κ) :=
  (looks.foldl (fun roster x => note r capacity now roster x.1 x.2) (roster.map absent)).filterMap
    (settle r now)

/-- Whether there is room for everyone who is seen. -/
def roomy : List (κ × Look) → List (Subject κ) → Bool
  | [], _ => true
  | (k, look) :: looks, roster =>
    (!look.isSeen || (lookup Subject.key k roster).isSome || decide (roster.length < capacity)) &&
      roomy looks (note r capacity now roster k look)

/-- The same, told from the keys: whoever is seen finds its key held, or less than all held. -/
def roomFor : List (κ × Look) → List κ → Bool
  | [], _ => true
  | (_, .missed) :: looks, held => roomFor looks held
  | (k, .left) :: looks, held => roomFor looks (held.erase k)
  | (k, .seen _) :: looks, held =>
    if k ∈ held then roomFor looks held
    else decide (held.length < capacity) && roomFor looks (k :: held)

end

/-- What the looks of a round say of one subject. -/
def lookOf {κ : Type} [DecidableEq κ] (looks : List (κ × Look)) (k : κ) : Look :=
  ((looks.find? (·.1 = k)).map (·.2)).getD .missed

section

variable {κ : Type} [DecidableEq κ] {r : Rates} {capacity : ℕ} {now : Option ℤ} {k : κ}
  {looks : List (κ × Look)} {roster : List (Subject κ)}

def lifeIn (roster : List (Subject κ)) (k : κ) : Option Life :=
  (lookup Subject.key k roster).map (·.life)

theorem unique_note (hu : Unique Subject.key roster) (look : Look) :
    Unique Subject.key (note r capacity now roster k look) := by
  unfold note
  split
  · exact hu
  · exact hu.erase k
  · split
    · exact hu.insert _
    · split
      · exact hu.insert _
      · exact hu

/-- What a look says of a life, until the round ends. -/
def heard (r : Rates) (now : Option ℤ) (look : Look) (life : Option Life) : Option Life :=
  match look, life with
  | .missed, life => life
  | .left, _ => none
  | .seen inside, none => some (first r now inside)
  | .seen inside, some l => some (again r now inside l)

theorem lifeIn_note_other {k' : κ} (hk : k' ≠ k) (look : Look) :
    lifeIn (note r capacity now roster k' look) k = lifeIn roster k := by
  unfold note lifeIn
  split
  · rfl
  · rw [lookup_erase, if_neg (Ne.symm hk)]
  · split
    · rw [lookup_insert, if_neg hk]
    · split
      · rw [lookup_insert, if_neg hk]
      · rfl

theorem lifeIn_note_self (look : Look)
    (hroom : (!look.isSeen || (lookup Subject.key k roster).isSome ||
      decide (roster.length < capacity)) = true) :
    lifeIn (note r capacity now roster k look) k = heard r now look (lifeIn roster k) := by
  cases look with
  | missed => rfl
  | left =>
    show (lookup Subject.key k (erase Subject.key k roster)).map _ = none
    rw [lookup_erase, if_pos rfl]
    rfl
  | seen inside =>
    unfold note lifeIn
    cases hs : lookup Subject.key k roster with
    | some s =>
      dsimp only
      rw [lookup_insert, if_pos rfl]
      rfl
    | none =>
      have hlt : roster.length < capacity := by simpa [Look.isSeen, hs] using hroom
      dsimp only
      rw [if_pos hlt, lookup_insert, if_pos rfl]
      rfl

theorem lookOf_cons {k' : κ} {look : Look} :
    lookOf ((k', look) :: looks) k = if k' = k then look else lookOf looks k := by
  by_cases h : k' = k <;> simp [lookOf, h]

theorem lookOf_missed (h : k ∉ looks.map (·.1)) : lookOf looks k = .missed := by
  have hnone : looks.find? (·.1 = k) = none := by
    rw [List.find?_eq_none]
    intro x hx he
    exact h (List.mem_map.mpr ⟨x, hx, of_decide_eq_true he⟩)
  rw [lookOf, hnone]
  rfl

theorem lookOf_of_mem (hlooks : (looks.map (·.1)).Nodup) {x : κ × Look} (hx : x ∈ looks) :
    lookOf looks x.1 = x.2 := by
  induction looks with
  | nil => cases hx
  | cons y looks ih =>
    obtain ⟨k, look⟩ := y
    rw [List.map_cons, List.nodup_cons] at hlooks
    rw [lookOf_cons]
    rcases List.mem_cons.mp hx with rfl | hx
    · rw [if_pos rfl]
    · have hne : k ≠ x.1 := fun h => hlooks.1 (List.mem_map.mpr ⟨x, hx, h.symm⟩)
      rw [if_neg hne, ih hlooks.2 hx]

theorem lookOf_cases (looks : List (κ × Look)) (k : κ) :
    lookOf looks k = .missed ∨ ∃ x ∈ looks, lookOf looks k = x.2 := by
  unfold lookOf
  cases h : looks.find? (·.1 = k) with
  | none => exact .inl rfl
  | some x => exact .inr ⟨x, List.mem_of_find?_eq_some h, rfl⟩

theorem lifeIn_notes (hlooks : (looks.map (·.1)).Nodup)
    (hroom : roomy r capacity now looks roster = true) :
    lifeIn (looks.foldl (fun roster x => note r capacity now roster x.1 x.2) roster) k =
      heard r now (lookOf looks k) (lifeIn roster k) := by
  induction looks generalizing roster with
  | nil => rfl
  | cons x looks ih =>
    obtain ⟨k', look⟩ := x
    rw [List.map_cons, List.nodup_cons] at hlooks
    rw [roomy, Bool.and_eq_true] at hroom
    rw [List.foldl_cons, ih hlooks.2 hroom.2, lookOf_cons]
    by_cases hk : k' = k
    · subst hk
      rw [if_pos rfl, lookOf_missed hlooks.1, ← lifeIn_note_self look hroom.1]
      rfl
    · rw [if_neg hk, lifeIn_note_other hk]

omit [DecidableEq κ] in
theorem settle_key {s s' : Subject κ} (h : settle r now s = some s') : s'.key = s.key := by
  unfold settle at h
  split at h
  · rw [← Option.some.inj h]
  · obtain ⟨l, -, rfl⟩ := Option.map_eq_some_iff.mp h
    rfl

theorem lifeIn_settled (hu : Unique Subject.key roster) :
    lifeIn (roster.filterMap (settle r now)) k =
      (lifeIn roster k).bind fun l => if l.present then some l else missed r now l := by
  unfold lifeIn
  rw [lookup_filterMap (fun x y h => settle_key h) hu]
  cases lookup Subject.key k roster with
  | none => rfl
  | some s =>
    simp only [Option.bind_some, Option.map_some, settle]
    split
    · rfl
    · rw [Option.map_map]
      exact Option.map_id'

theorem lifeIn_absent :
    lifeIn (roster.map absent) k = (lifeIn roster k).map fun l => { l with present := false } := by
  unfold lifeIn
  rw [lookup_map (f := absent) fun _ => rfl]
  cases lookup Subject.key k roster <;> rfl

theorem unique_notes (hu : Unique Subject.key roster) :
    Unique Subject.key
      (looks.foldl (fun roster x => note r capacity now roster x.1 x.2) roster) := by
  induction looks generalizing roster with
  | nil => exact hu
  | cons x looks ih => exact ih (unique_note hu x.2)

theorem unique_round (hu : Unique Subject.key roster) :
    Unique Subject.key (round r capacity now looks roster) := by
  refine (unique_notes ?_).filterMap fun x y h => settle_key h
  show ((roster.map absent).map Subject.key).Nodup
  rw [List.map_map]
  exact hu

theorem step_eq (look : Look) (life : Option Life) :
    step r now look life =
      (heard r now look (life.map fun l => { l with present := false })).bind
        fun l => if l.present then some l else missed r now l := by
  cases look with
  | left => rfl
  | missed => cases life <;> rfl
  | seen inside =>
    cases life with
    | none => rfl
    | some l =>
      have hagain : again r now inside { l with present := false } = again r now inside l := by
        unfold again confirm cross
        split_ifs <;> rfl
      simp only [Option.map_some, heard, hagain, Option.bind_some]
      rfl

/-- **With room for everyone, each life is the subject's own.** -/
theorem round_own (hu : Unique Subject.key roster) (hlooks : (looks.map (·.1)).Nodup)
    (hroom : roomy r capacity now looks (roster.map absent) = true) :
    lifeIn (round r capacity now looks roster) k =
      step r now (lookOf looks k) (lifeIn roster k) := by
  have hu' : Unique Subject.key (roster.map absent) := by
    show ((roster.map absent).map Subject.key).Nodup
    rw [List.map_map]
    exact hu
  rw [round, lifeIn_settled (unique_notes hu'), lifeIn_notes hlooks hroom, lifeIn_absent, step_eq]

/-- Subjects are counted by their keys. -/
theorem countP_lives (hu : Unique Subject.key roster) {p : Life → Bool} {ks : List κ}
    (hks : ks.Nodup) (hall : ∀ k, (lifeIn roster k).any p = true → k ∈ ks) :
    roster.countP (fun s => p s.life) = ks.countP fun k => (lifeIn roster k).any p := by
  have hlookup : ∀ k, (Slots.lookup (fun s : Subject κ => some s.key) k roster).any
      (fun s => p s.life) = (lifeIn roster k).any p := by
    intro k
    unfold lifeIn Slots.lookup Keyed.lookup
    simp only [Option.some.injEq, Option.any_map]
  have hd : Slots.Distinct (fun s : Subject κ => some s.key) roster := by
    rw [Slots.Distinct, Slots.keys, List.filterMap_eq_map']
    exact hu
  rw [Slots.countP_eq hd (fun _ _ h => by cases h) hks fun k hk => hall k (hlookup k ▸ hk)]
  exact List.countP_congr fun k _ => by rw [hlookup]

theorem present_round (hu : Unique Subject.key roster) (hlooks : (looks.map (·.1)).Nodup)
    (hroom : roomy r capacity now looks (roster.map absent) = true) {l : Life}
    (hl : lifeIn (round r capacity now looks roster) k = some l) (hp : l.present = true) :
    (lookOf looks k).isSeen = true := by
  rw [round_own hu hlooks hroom] at hl
  cases hlook : lookOf looks k with
  | seen inside => rfl
  | left =>
    rw [hlook] at hl
    cases hl
  | missed =>
    rw [hlook] at hl
    cases hlife : lifeIn roster k with
    | none =>
      rw [hlife] at hl
      cases hl
    | some l' =>
      rw [hlife] at hl
      rw [(missed_eq_some hl).2] at hp
      cases hp

theorem lifeIn_notes_other (hk : k ∉ looks.map (·.1)) :
    lifeIn (looks.foldl (fun roster x => note r capacity now roster x.1 x.2) roster) k =
      lifeIn roster k := by
  induction looks generalizing roster with
  | nil => rfl
  | cons x looks ih =>
    rw [List.map_cons, List.mem_cons, not_or] at hk
    rw [List.foldl_cons, ih hk.2, lifeIn_note_other (Ne.symm hk.1)]

/-- Without room someone who is seen ends up without a life. -/
theorem turned_away (hlooks : (looks.map (·.1)).Nodup)
    (hroom : roomy r capacity now looks roster = false) :
    ∃ x ∈ looks, x.2.isSeen = true ∧
      lifeIn (looks.foldl (fun roster x => note r capacity now roster x.1 x.2) roster) x.1 =
        none := by
  induction looks generalizing roster with
  | nil => cases hroom
  | cons x looks ih =>
    obtain ⟨k, look⟩ := x
    rw [List.map_cons, List.nodup_cons] at hlooks
    rw [roomy, Bool.and_eq_false_iff] at hroom
    by_cases hfits : (!look.isSeen || (lookup Subject.key k roster).isSome ||
        decide (roster.length < capacity)) = true
    · rcases hroom with hno | hno
      · rw [hno] at hfits
        cases hfits
      · obtain ⟨x, hx, hseen, hnone⟩ := ih hlooks.2 hno
        exact ⟨x, List.mem_cons_of_mem _ hx, hseen, hnone⟩
    · simp only [Bool.or_eq_true, Bool.not_eq_true', decide_eq_true_eq, not_or,
        Bool.not_eq_false, Option.not_isSome_iff_eq_none] at hfits
      obtain ⟨⟨hseen, hnone⟩, hfull⟩ := hfits
      refine ⟨(k, look), List.mem_cons_self, hseen, ?_⟩
      rw [List.foldl_cons, lifeIn_notes_other hlooks.1]
      cases look with
      | missed => cases hseen
      | left => cases hseen
      | seen inside =>
        unfold note
        simp only [hnone, if_neg hfull]
        rw [lifeIn, hnone]
        rfl

omit [DecidableEq κ] in
theorem keys_absent : (roster.map absent).map Subject.key = roster.map Subject.key := by
  rw [List.map_map]
  rfl

/-- Room depends on nothing but the keys. -/
theorem roomy_eq_roomFor {held : List κ} (hu : Unique Subject.key roster)
    (hheld : held.Perm (roster.map Subject.key)) :
    roomy r capacity now looks roster = roomFor capacity looks held := by
  induction looks generalizing roster held with
  | nil => rfl
  | cons x looks ih =>
    obtain ⟨k, look⟩ := x
    have hnote : Unique Subject.key (note r capacity now roster k look) := unique_note hu look
    cases look with
    | missed => exact ih hnote hheld
    | left =>
      have hkeys : (held.erase k).Perm ((note r capacity now roster k .left).map Subject.key) := by
        rw [show note r capacity now roster k .left = erase Subject.key k roster from rfl,
          keys_erase hu]
        exact hheld.erase k
      exact ih hnote hkeys
    | seen inside =>
      cases hlook : lookup Subject.key k roster with
      | some s =>
        have hmem : k ∈ held :=
          hheld.mem_iff.mpr (List.mem_map.mpr ⟨s, lookup_mem hlook, lookup_key hlook⟩)
        have hkeys : held.Perm ((note r capacity now roster k (.seen inside)).map Subject.key) := by
          refine hheld.trans ((perm_cons_erase hu hlook).map Subject.key |>.trans ?_)
          simp only [note, hlook, Keyed.insert, List.map_cons, lookup_key hlook, List.Perm.refl]
        rw [roomy, roomFor, if_pos hmem, ih hnote hkeys]
        simp only [hlook, Option.isSome_some, Bool.or_true, Bool.true_or, Bool.true_and]
      | none =>
        have hmem : k ∉ held := fun h => by
          obtain ⟨s, hs, he⟩ := List.mem_map.mp (hheld.mem_iff.mp h)
          exact lookup_eq_none.mp hlook s hs he
        have hlen : roster.length = held.length := by
          rw [hheld.length_eq, List.length_map]
        rw [roomy, roomFor, if_neg hmem, hlook, hlen]
        by_cases hroom : held.length < capacity
        · have hkeys : (k :: held).Perm
              ((note r capacity now roster k (.seen inside)).map Subject.key) := by
            simp only [note, hlook, if_pos (hlen ▸ hroom), Keyed.insert,
              erase_of_lookup_eq_none hlook, List.map_cons]
            exact hheld.cons k
          rw [ih hnote hkeys]
          rfl
        · rw [decide_eq_false hroom]
          rfl

theorem lookOf_perm {looks' : List (κ × Look)} (hlooks : (looks.map (·.1)).Nodup)
    (hperm : looks.Perm looks') : lookOf looks k = lookOf looks' k := by
  have hlookup : lookup Prod.fst k looks = lookup Prod.fst k looks' := lookup_perm hperm hlooks
  unfold lookup at hlookup
  rw [lookOf, lookOf, hlookup]

/-- **Everyone seen has a life that is present iff there was room for everyone.** -/
theorem everyone_present_iff (hu : Unique Subject.key roster) (hlooks : (looks.map (·.1)).Nodup) :
    (∀ x ∈ looks, x.2.isSeen = true →
      ∃ l, lifeIn (round r capacity now looks roster) x.1 = some l ∧ l.present = true) ↔
      roomy r capacity now looks (roster.map absent) = true := by
  constructor
  · intro hall
    by_contra hno
    obtain ⟨x, hx, hseen, hnone⟩ := turned_away hlooks (by simpa using hno)
    obtain ⟨l, hl, -⟩ := hall x hx hseen
    have hu' : Unique Subject.key (roster.map absent) := by
      show ((roster.map absent).map Subject.key).Nodup
      rw [List.map_map]
      exact hu
    rw [round, lifeIn_settled (unique_notes hu'), hnone] at hl
    cases hl
  · intro hroom x hx hseen
    rw [round_own hu hlooks hroom, lookOf_of_mem hlooks hx]
    obtain ⟨k, look⟩ := x
    cases look with
    | missed => cases hseen
    | left => cases hseen
    | seen inside =>
      cases lifeIn roster k with
      | none => exact ⟨_, rfl, rfl⟩
      | some l => exact ⟨_, rfl, rfl⟩

end

end FlowAlarm.Trace.Presence
