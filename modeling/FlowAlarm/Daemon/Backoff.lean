import Mathlib.Tactic.Linarith
import Mathlib.Tactic.Ring
import Mathlib.Algebra.Order.Ring.Int

/-!
# Retry delays

`boundedBackoff` of the delivery service. Durations are 64-bit nanosecond
counts; an operation that leaves its range is an overflow (`none`), so a result
says that no step overflowed. The random source is a parameter: it draws a
number below its bound, or fails.
-/

namespace FlowAlarm.Delivery

def second : ℤ := 1000000000
def minute : ℤ := 60 * second

def InInt64 (z : ℤ) : Prop := -2 ^ 63 ≤ z ∧ z < 2 ^ 63

instance (z : ℤ) : Decidable (InInt64 z) := inferInstanceAs (Decidable (_ ∧ _))

/-- The result of an `int64` operation, unless it overflows. -/
def int64 (z : ℤ) : Option ℤ := if InInt64 z then some z else none

theorem int64_of {z : ℤ} (h : InInt64 z) : int64 z = some z := if_pos h

/-- `for i := 1; i < attempt && delay < maximum; i++`, from `i` on; an `int` goes up to `maxInt`. -/
def backoffLoop (maxInt attempt maximum i delay : ℤ) : Option ℤ :=
  if i < attempt ∧ delay < maximum then
    if delay > maximum.tdiv 2 then some maximum
    else
      match int64 (delay * 2), decide (i + 1 ≤ maxInt) with
      | some delay, true => backoffLoop maxInt attempt maximum (i + 1) delay
      | _, _ => none
  else some delay
termination_by (attempt - i).toNat
decreasing_by omega

def defaultBase (base : ℤ) : ℤ := if base ≤ 0 then second else base

/-- The upper bound of a delay: `maximum` with its default, at least the base. -/
def defaultMaximum (base maximum : ℤ) : ℤ :=
  let maximum := if maximum ≤ 0 then 5 * minute else maximum
  if maximum < defaultBase base then defaultBase base else maximum

/-- The delay before jitter. -/
def cappedDelay (maxInt base maximum attempt : ℤ) : Option ℤ :=
  let attempt := if attempt < 1 then 1 else attempt
  (backoffLoop maxInt attempt (defaultMaximum base maximum) 1 (defaultBase base)).map fun delay =>
    if delay > defaultMaximum base maximum then defaultMaximum base maximum else delay

/-- `draw n` is `rand.Int` with the bound `n`. -/
def boundedBackoff (draw : ℤ → Option ℤ) (maxInt base maximum attempt : ℤ) : Option ℤ := do
  let delay ← cappedDelay maxInt base maximum attempt
  let half := delay.tdiv 2
  if half ≤ 0 then return delay
  let bound ← int64 (half + 1)
  match draw bound with
  | none => return delay
  | some jitter => int64 (half + jitter)

/-! ## The delay before jitter -/

/-- The delay in exact integers: the base doubled before every attempt but the first, up to the
maximum. -/
def exactDelay (base maximum attempt : ℤ) : ℤ :=
  min (defaultBase base * 2 ^ (max attempt 1 - 1).toNat) (defaultMaximum base maximum)

theorem defaultBase_pos (base : ℤ) : 0 < defaultBase base := by
  unfold defaultBase
  split
  · decide
  · omega

theorem defaultBase_le (base maximum : ℤ) : defaultBase base ≤ defaultMaximum base maximum := by
  unfold defaultMaximum
  dsimp only
  split <;> split <;> omega

theorem defaultMaximum_eq (base maximum : ℤ) :
    defaultMaximum base maximum =
      max (defaultBase base) (if maximum ≤ 0 then 5 * minute else maximum) := by
  unfold defaultMaximum
  dsimp only
  split <;> split <;> omega

theorem defaultMaximum_inInt64 {base maximum : ℤ} (hb : InInt64 base) (hm : InInt64 maximum) :
    InInt64 (defaultMaximum base maximum) := by
  have hpos := defaultBase_pos base
  have hle := defaultBase_le base maximum
  unfold InInt64 at *
  refine ⟨by omega, ?_⟩
  rw [defaultMaximum_eq]
  refine max_lt ?_ ?_
  · unfold defaultBase
    split
    · decide
    · omega
  · split
    · decide
    · omega

/-- What the loop returns from any point on: the remaining doublings, up to the maximum. -/
theorem backoffLoop_eq {maxInt attempt maximum i delay : ℤ} (ha : attempt ≤ maxInt)
    (hm : InInt64 maximum) (hpos : 0 < delay) (hle : delay ≤ maximum) :
    backoffLoop maxInt attempt maximum i delay =
      some (min (delay * 2 ^ (attempt - i).toNat) maximum) := by
  unfold backoffLoop
  by_cases hloop : i < attempt ∧ delay < maximum
  · rw [if_pos hloop]
    obtain ⟨n, hn⟩ : ∃ n, (attempt - i).toNat = n + 1 := ⟨(attempt - i).toNat - 1, by omega⟩
    have hrest : (attempt - (i + 1)).toNat = n := by omega
    have hpow : (1 : ℤ) ≤ 2 ^ n := one_le_pow₀ (by norm_num)
    have hdiv : maximum.tdiv 2 = maximum / 2 := Int.tdiv_eq_ediv_of_nonneg (by omega)
    rw [hdiv, hn, pow_succ]
    by_cases hhalf : delay > maximum / 2
    · rw [if_pos hhalf, min_eq_right]
      -- one more doubling already exceeds the maximum
      have hdouble : maximum ≤ delay * 2 := by omega
      have hrem : delay * 2 * 1 ≤ delay * 2 * 2 ^ n := mul_le_mul_of_nonneg_left hpow (by omega)
      calc maximum ≤ delay * 2 * 1 := by omega
        _ ≤ delay * 2 * 2 ^ n := hrem
        _ = delay * (2 ^ n * 2) := by ring
    · unfold InInt64 at hm
      have hfit : int64 (delay * 2) = some (delay * 2) := int64_of ⟨by omega, by omega⟩
      have hi : decide (i + 1 ≤ maxInt) = true := decide_eq_true (by omega)
      rw [if_neg hhalf, hfit, hi]
      dsimp only
      rw [backoffLoop_eq ha hm (by omega) (by omega), hrest, mul_assoc, mul_comm 2]
  · rw [if_neg hloop]
    by_cases hi : i < attempt
    · have heq : delay = maximum := by omega
      have hpow : (1 : ℤ) ≤ 2 ^ (attempt - i).toNat := one_le_pow₀ (by norm_num)
      rw [heq, min_eq_right (le_mul_of_one_le_right (by omega) hpow)]
    · have hzero : (attempt - i).toNat = 0 := by omega
      rw [hzero, pow_zero, mul_one, min_eq_left hle]
termination_by (attempt - i).toNat
decreasing_by omega

theorem cappedDelay_eq {maxInt base maximum attempt : ℤ} (hint : 1 ≤ maxInt)
    (ha : attempt ≤ maxInt) (hb : InInt64 base) (hm : InInt64 maximum) :
    cappedDelay maxInt base maximum attempt = some (exactDelay base maximum attempt) := by
  have hattempt : (if attempt < 1 then 1 else attempt) = max attempt 1 := by
    split <;> omega
  unfold cappedDelay
  dsimp only
  rw [hattempt, backoffLoop_eq (by omega) (defaultMaximum_inInt64 hb hm) (defaultBase_pos base)
    (defaultBase_le base maximum), Option.map_some, if_neg (by omega), exactDelay]

theorem exactDelay_pos (base maximum attempt : ℤ) : 0 < exactDelay base maximum attempt := by
  have hpos := defaultBase_pos base
  have hle := defaultBase_le base maximum
  exact lt_min (mul_pos hpos (by positivity)) (by omega)

theorem exactDelay_le (base maximum attempt : ℤ) :
    exactDelay base maximum attempt ≤ defaultMaximum base maximum :=
  min_le_right _ _

/-! ## The delay drawn -/

/-- `rand.Int` returns a number below its bound, if it returns one. -/
def Uniform (draw : ℤ → Option ℤ) : Prop := ∀ n j, draw n = some j → 0 ≤ j ∧ j < n

/-- **The backoff arithmetic.** No step overflows; the delay before jitter is the exact one, and
the delay drawn is at least half of it and at most it. -/
theorem boundedBackoff_bounds {draw : ℤ → Option ℤ} {maxInt base maximum attempt : ℤ}
    (hdraw : Uniform draw) (hint : 1 ≤ maxInt) (ha : attempt ≤ maxInt) (hb : InInt64 base)
    (hm : InInt64 maximum) :
    cappedDelay maxInt base maximum attempt =
        some (min (defaultBase base * 2 ^ (max attempt 1 - 1).toNat)
          (max (defaultBase base) (if maximum ≤ 0 then 5 * minute else maximum))) ∧
      ∃ delay, boundedBackoff draw maxInt base maximum attempt = some delay ∧
        exactDelay base maximum attempt / 2 ≤ delay ∧ delay ≤ exactDelay base maximum attempt ∧
        0 < delay ∧ delay ≤ defaultMaximum base maximum := by
  have hcapped := cappedDelay_eq hint ha hb hm
  refine ⟨by rw [hcapped, exactDelay, defaultMaximum_eq], ?_⟩
  have hpos := exactDelay_pos base maximum attempt
  have hle := exactDelay_le base maximum attempt
  have hfits := defaultMaximum_inInt64 hb hm
  unfold boundedBackoff
  rw [hcapped]
  generalize exactDelay base maximum attempt = delay at *
  have hdiv : delay.tdiv 2 = delay / 2 := Int.tdiv_eq_ediv_of_nonneg (by omega)
  unfold InInt64 at hfits
  simp only [Option.bind_eq_bind, Option.bind_some, hdiv]
  by_cases hhalf : delay / 2 ≤ 0
  · rw [if_pos hhalf]
    exact ⟨delay, rfl, by omega, le_refl _, hpos, hle⟩
  · have hbound : int64 (delay / 2 + 1) = some (delay / 2 + 1) := int64_of ⟨by omega, by omega⟩
    rw [if_neg hhalf, hbound]
    simp only [Option.bind_some]
    cases hj : draw (delay / 2 + 1) with
    | none => exact ⟨delay, rfl, by omega, le_refl _, hpos, hle⟩
    | some j =>
      obtain ⟨h0, hlt⟩ := hdraw _ _ hj
      exact ⟨delay / 2 + j, int64_of ⟨by omega, by omega⟩, by omega, by omega, by omega, by omega⟩

/-- A random source that always draws zero. -/
theorem boundedBackoff_bounds_demo :
    cappedDelay (2 ^ 31 - 1) (2 ^ 62) (2 ^ 63 - 1) 1000 =
        some (min (defaultBase (2 ^ 62) * 2 ^ (max (1000 : ℤ) 1 - 1).toNat)
          (max (defaultBase (2 ^ 62))
            (if (2 ^ 63 - 1 : ℤ) ≤ 0 then 5 * minute else 2 ^ 63 - 1))) ∧
      ∃ delay, boundedBackoff (fun n => if 0 < n then some 0 else none) (2 ^ 31 - 1) (2 ^ 62)
          (2 ^ 63 - 1) 1000 = some delay ∧
        exactDelay (2 ^ 62) (2 ^ 63 - 1) 1000 / 2 ≤ delay ∧
        delay ≤ exactDelay (2 ^ 62) (2 ^ 63 - 1) 1000 ∧ 0 < delay ∧
        delay ≤ defaultMaximum (2 ^ 62) (2 ^ 63 - 1) := by
  refine boundedBackoff_bounds (fun n j hj => ?_) (by norm_num) (by norm_num) (by decide)
    (by decide)
  split at hj
  · next hn => exact ⟨by simp_all, by simp_all⟩
  · cases hj

end FlowAlarm.Delivery
