import Mathlib.Data.Int.Log
import Mathlib.Data.Rat.Floor
import Mathlib.Tactic.Ring
import Mathlib.Tactic.Linarith
import Mathlib.Tactic.FieldSimp
import Mathlib.Tactic.Positivity

/-!
# Rounding to significant digits

`roundAt b k q` rounds `q` to a multiple of `b ^ k`, ties to even. With `k`
taken from the leading digit this is rounding to `p` significant digits:
`roundSig 10 p` is what `%.pg` prints, and `binary64` (53 binary digits, with
the subnormal floor) is the value of a C `double` conversion. Overflow to an
infinity is not represented: a value above the range stays above it.
-/

namespace FlowAlarm.Num

/-- The nearest integer, ties to even. -/
def halfEven (x : ℚ) : ℤ :=
  if x - ⌊x⌋ < 1 / 2 ∨ (x - ⌊x⌋ = 1 / 2 ∧ ⌊x⌋ % 2 = 0) then ⌊x⌋ else ⌊x⌋ + 1

def roundAt (b : ℕ) (k : ℤ) (q : ℚ) : ℚ := halfEven (q / (b : ℚ) ^ k) * (b : ℚ) ^ k

/-- The exponent of the last of `p` significant digits of `q`. -/
def lastDigit (b p : ℕ) (q : ℚ) : ℤ := Int.log b |q| - (p - 1)

def roundSig (b p : ℕ) (q : ℚ) : ℚ := roundAt b (lastDigit b p q) q

/-- The double nearest to `q`. -/
def binary64 (q : ℚ) : ℚ := roundAt 2 (max (lastDigit 2 53 q) (-1074)) q

theorem halfEven_intCast (z : ℤ) : halfEven z = z := by
  simp [halfEven]

theorem roundAt_mul {b : ℕ} (hb : 0 < b) (k z : ℤ) :
    roundAt b k (z * (b : ℚ) ^ k) = z * (b : ℚ) ^ k := by
  have hpow : (b : ℚ) ^ k ≠ 0 := zpow_ne_zero k (by positivity)
  rw [roundAt, mul_div_assoc, div_self hpow, mul_one, halfEven_intCast]

/-- An integer is already a multiple of every `b ^ k` with `k ≤ 0`. -/
theorem roundAt_int {b : ℕ} (hb : 0 < b) {k : ℤ} (hk : k ≤ 0) (z : ℤ) :
    roundAt b k (z : ℚ) = z := by
  obtain ⟨n, rfl⟩ : ∃ n : ℕ, k = -n := ⟨k.natAbs, by omega⟩
  have hz : (z : ℚ) = ((z * (b : ℤ) ^ n : ℤ) : ℚ) * (b : ℚ) ^ (-(n : ℤ)) := by
    have hpow : (b : ℚ) ^ n ≠ 0 := pow_ne_zero n (by positivity)
    rw [zpow_neg, zpow_natCast]
    push_cast
    field_simp
  rw [hz, roundAt_mul hb]

theorem lastDigit_natCast {b p n : ℕ} : lastDigit b p (n : ℚ) = Nat.log b n - (p - 1) := by
  have : |(n : ℚ)| = (n : ℚ) := abs_of_nonneg (by positivity)
  rw [lastDigit, this, Int.log_natCast]

theorem lastDigit_natCast_nonpos {b p n : ℕ} (hp : 0 < p) (h : n < b ^ p) :
    lastDigit b p (n : ℚ) ≤ 0 := by
  rw [lastDigit_natCast]
  have hlog : Nat.log b n < p := by
    rcases Nat.eq_zero_or_pos n with rfl | hn
    · simpa using hp
    · exact Nat.log_lt_of_lt_pow (by omega) h
  omega

/-- A number of at most `p` digits is its own rounding. -/
theorem roundSig_natCast {b p n : ℕ} (hb : 1 < b) (hp : 0 < p) (h : n < b ^ p) :
    roundSig b p (n : ℚ) = n := by
  have := roundAt_int (b := b) (by omega) (lastDigit_natCast_nonpos hp h) (n : ℤ)
  simpa [roundSig] using this

/-- Fifty-three bits above the subnormal floor are represented exactly. -/
theorem binary64_dyadic {m j : ℤ} (hm : |m| < 2 ^ 53) (hj : -1074 ≤ j) :
    binary64 (m * (2 : ℚ) ^ j) = m * (2 : ℚ) ^ j := by
  rcases eq_or_ne m 0 with rfl | hne
  · simp [binary64, roundAt, halfEven]
  have hpow : (0 : ℚ) < (2 : ℚ) ^ j := zpow_pos (by norm_num) j
  have habs : |(m : ℚ) * (2 : ℚ) ^ j| = |(m : ℚ)| * (2 : ℚ) ^ j := by
    rw [abs_mul, abs_of_pos hpow]
  have hpos : 0 < |(m : ℚ) * (2 : ℚ) ^ j| := by
    rw [habs]
    exact mul_pos (abs_pos.mpr (by exact_mod_cast hne)) hpow
  have hlog : Int.log 2 |(m : ℚ) * (2 : ℚ) ^ j| < j + 53 := by
    rw [← Int.lt_zpow_iff_log_lt (by norm_num) hpos, habs]
    have h53 : |(m : ℚ)| < (2 : ℚ) ^ 53 := by exact_mod_cast hm
    calc |(m : ℚ)| * (2 : ℚ) ^ j < (2 : ℚ) ^ 53 * (2 : ℚ) ^ j :=
          mul_lt_mul_of_pos_right h53 hpow
      _ = ((2 : ℕ) : ℚ) ^ (j + 53) := by
          push_cast
          rw [zpow_add₀ (by norm_num)]
          norm_num
          ring
  have hk : max (lastDigit 2 53 ((m : ℚ) * (2 : ℚ) ^ j)) (-1074) ≤ j := by
    refine max_le ?_ hj
    simp only [lastDigit]
    push_cast
    omega
  obtain ⟨n, hn⟩ := Int.eq_ofNat_of_zero_le (sub_nonneg.mpr hk)
  set k := max (lastDigit 2 53 ((m : ℚ) * (2 : ℚ) ^ j)) (-1074) with hkdef
  have hval : (m : ℚ) * (2 : ℚ) ^ j = ((m * 2 ^ n : ℤ) : ℚ) * ((2 : ℕ) : ℚ) ^ k := by
    have hj' : j = k + n := by omega
    push_cast
    rw [hj', zpow_add₀ (by norm_num), zpow_natCast]
    ring
  rw [binary64, ← hkdef]
  conv_lhs => rw [hval]
  rw [roundAt_mul (by norm_num), ← hval]

theorem binary64_natCast {n : ℕ} (h : n < 2 ^ 53) : binary64 (n : ℚ) = n := by
  have := binary64_dyadic (m := (n : ℤ)) (j := 0) (by
    rw [abs_of_nonneg (by positivity)]
    exact_mod_cast h) (by norm_num)
  simpa using this

/-- Rounding keeps integers integral. -/
theorem binary64_int (z : ℤ) : ∃ w : ℤ, binary64 (z : ℚ) = w := by
  rcases le_total (max (lastDigit 2 53 (z : ℚ)) (-1074)) 0 with hk | hk
  · exact ⟨z, roundAt_int (by omega) hk z⟩
  · obtain ⟨n, hn⟩ := Int.eq_ofNat_of_zero_le hk
    refine ⟨halfEven ((z : ℚ) / 2 ^ n) * 2 ^ n, ?_⟩
    rw [binary64, hn, roundAt]
    push_cast
    rw [zpow_natCast]

theorem halfEven_nonneg {x : ℚ} (h : 0 ≤ x) : 0 ≤ halfEven x := by
  have := Int.floor_nonneg.mpr h
  unfold halfEven
  split <;> omega

theorem halfEven_le {x : ℚ} : (halfEven x : ℚ) ≤ x + 1 := by
  have := Int.floor_le x
  unfold halfEven
  split
  · linarith
  · push_cast
    linarith

theorem roundAt_nonneg {b : ℕ} {k : ℤ} {q : ℚ} (h : 0 ≤ q) : 0 ≤ roundAt b k q := by
  have hb : (0 : ℚ) ≤ (b : ℚ) ^ k := zpow_nonneg (by positivity) k
  have := halfEven_nonneg (div_nonneg h hb)
  exact mul_nonneg (by exact_mod_cast this) hb

theorem binary64_nonneg {q : ℚ} (h : 0 ≤ q) : 0 ≤ binary64 q := roundAt_nonneg h

/-- The double of a natural number is a natural number at most twice as large. -/
theorem binary64_nat (n : ℕ) : ∃ d : ℕ, binary64 (n : ℚ) = d ∧ d ≤ 2 * n := by
  rcases Nat.lt_or_ge n (2 ^ 53) with h | h
  · exact ⟨n, binary64_natCast h, by omega⟩
  obtain ⟨w, hw⟩ := binary64_int (n : ℤ)
  rw [Int.cast_natCast] at hw
  have h0 : (0 : ℚ) ≤ w := hw ▸ binary64_nonneg (by positivity)
  obtain ⟨d, rfl⟩ := Int.eq_ofNat_of_zero_le (by exact_mod_cast h0 : 0 ≤ w)
  refine ⟨d, by simpa using hw, ?_⟩
  have hn : n ≠ 0 := by
    have : 0 < 2 ^ 53 := by norm_num
    omega
  have hlog : 53 ≤ Nat.log 2 n := Nat.le_log_of_pow_le (by norm_num) h
  have hk : max (lastDigit 2 53 (n : ℚ)) (-1074) = ((Nat.log 2 n - 52 : ℕ) : ℤ) := by
    rw [lastDigit_natCast]
    push_cast
    omega
  have hpow : (2 : ℚ) ^ (Nat.log 2 n - 52) ≤ n := by
    have h1 : 2 ^ (Nat.log 2 n - 52) ≤ 2 ^ Nat.log 2 n := Nat.pow_le_pow_right (by norm_num) (by omega)
    exact_mod_cast h1.trans (Nat.pow_log_le_self 2 hn)
  have hle : binary64 (n : ℚ) ≤ 2 * n := by
    rw [binary64, hk, roundAt]
    push_cast
    rw [zpow_natCast]
    have hpos : (0 : ℚ) < (2 : ℚ) ^ (Nat.log 2 n - 52) := by positivity
    calc (halfEven ((n : ℚ) / 2 ^ (Nat.log 2 n - 52)) : ℚ) * 2 ^ (Nat.log 2 n - 52)
        ≤ ((n : ℚ) / 2 ^ (Nat.log 2 n - 52) + 1) * 2 ^ (Nat.log 2 n - 52) :=
          mul_le_mul_of_nonneg_right halfEven_le hpos.le
      _ = n + 2 ^ (Nat.log 2 n - 52) := by field_simp
      _ ≤ 2 * n := by linarith
  rw [hw] at hle
  exact_mod_cast hle

/-- The rounded quotient of two naturals. -/
theorem halfEven_div {a b : ℕ} (hb : 0 < b) :
    halfEven ((a : ℚ) / b) =
      if 2 * (a % b) < b ∨ (2 * (a % b) = b ∧ a / b % 2 = 0) then ((a / b : ℕ) : ℤ)
      else ((a / b : ℕ) : ℤ) + 1 := by
  have hfl : ⌊(a : ℚ) / b⌋ = ((a / b : ℕ) : ℤ) := by
    have := Rat.floor_intCast_div_natCast (a : ℤ) b
    push_cast at this ⊢
    simpa using this
  have hb' : (b : ℚ) ≠ 0 := by positivity
  have hr : (a : ℚ) / b - ((a / b : ℕ) : ℤ) = ((a % b : ℕ) : ℚ) / b := by
    have h := Nat.div_add_mod a b
    have h' : (a : ℚ) = b * ((a / b : ℕ) : ℚ) + ((a % b : ℕ) : ℚ) := by exact_mod_cast h.symm
    rw [Int.cast_natCast, eq_div_iff hb', sub_mul, div_mul_cancel₀ _ hb']
    linarith
  have hlt : ((a % b : ℕ) : ℚ) / b < 1 / 2 ↔ 2 * (a % b) < b := by
    rw [div_lt_div_iff₀ (by positivity) (by norm_num)]
    constructor <;> intro h
    · have : ((2 * (a % b) : ℕ) : ℚ) < (b : ℕ) := by push_cast; linarith
      exact_mod_cast this
    · have : ((2 * (a % b) : ℕ) : ℚ) < (b : ℕ) := by exact_mod_cast h
      push_cast at this
      linarith
  have heq : ((a % b : ℕ) : ℚ) / b = 1 / 2 ↔ 2 * (a % b) = b := by
    rw [div_eq_div_iff hb' (by norm_num)]
    constructor <;> intro h
    · have : ((2 * (a % b) : ℕ) : ℚ) = (b : ℕ) := by push_cast; linarith
      exact_mod_cast this
    · have : ((2 * (a % b) : ℕ) : ℚ) = (b : ℕ) := by exact_mod_cast h
      push_cast at this
      linarith
  have heven : ((a / b : ℕ) : ℤ) % 2 = 0 ↔ a / b % 2 = 0 := by omega
  simp only [halfEven, hfl, hr, hlt, heq, heven]

theorem floor_le_halfEven (x : ℚ) : ⌊x⌋ ≤ halfEven x := by
  unfold halfEven
  split <;> omega

/-- Rounding to significant digits does not fall below a power of the base. -/
theorem pow_le_roundSig {b p : ℕ} {e : ℤ} {q : ℚ} (hb : 1 < b) (hp : 0 < p)
    (h : (b : ℚ) ^ e ≤ q) : (b : ℚ) ^ e ≤ roundSig b p q := by
  have hb0 : (0 : ℚ) < b := by positivity
  have hq : 0 < q := lt_of_lt_of_le (zpow_pos hb0 e) h
  have habs : |q| = q := abs_of_pos hq
  set k := lastDigit b p q with hk
  have hlog : Int.log b q = k + ((p - 1 : ℕ) : ℤ) := by
    rw [hk, lastDigit, habs]
    omega
  have hle : e ≤ Int.log b q := (Int.zpow_le_iff_le_log hb hq).mp h
  have hpow : (0 : ℚ) < (b : ℚ) ^ k := zpow_pos hb0 k
  have hlead : (((b : ℤ) ^ (p - 1) : ℤ) : ℚ) ≤ q / (b : ℚ) ^ k := by
    rw [le_div_iff₀ hpow]
    push_cast
    rw [← zpow_natCast, ← zpow_add₀ hb0.ne', add_comm, ← hlog]
    exact Int.zpow_log_le_self hb hq
  have hhalf : (b : ℤ) ^ (p - 1) ≤ halfEven (q / (b : ℚ) ^ k) :=
    (Int.le_floor.mpr hlead).trans (floor_le_halfEven _)
  have hhalf' : (b : ℚ) ^ (p - 1) ≤ (halfEven (q / (b : ℚ) ^ k) : ℚ) := by exact_mod_cast hhalf
  calc (b : ℚ) ^ e ≤ (b : ℚ) ^ Int.log b q := zpow_le_zpow_right₀ (by exact_mod_cast hb.le) hle
    _ = (b : ℚ) ^ (p - 1) * (b : ℚ) ^ k := by
      rw [hlog, add_comm, zpow_add₀ hb0.ne', zpow_natCast]
    _ ≤ roundSig b p q := by
      rw [roundSig, ← hk, roundAt]
      exact mul_le_mul_of_nonneg_right hhalf' hpow.le

theorem pow_le_binary64 {e : ℕ} {q : ℚ} (h : (2 : ℚ) ^ e ≤ q) : (2 : ℚ) ^ e ≤ binary64 q := by
  have hq : 0 < q := lt_of_lt_of_le (by positivity) h
  have hz : ((2 : ℕ) : ℚ) ^ (e : ℤ) ≤ q := by exact_mod_cast h
  have hlog : (e : ℤ) ≤ Int.log 2 q := (Int.zpow_le_iff_le_log (by norm_num) hq).mp hz
  have hmax : max (lastDigit 2 53 q) (-1074) = lastDigit 2 53 q := by
    refine max_eq_left ?_
    rw [lastDigit, abs_of_pos hq]
    omega
  have := pow_le_roundSig (p := 53) (by norm_num) (by norm_num) hz
  rw [roundSig, ← hmax] at this
  rw [binary64]
  exact_mod_cast this

/-! ## Opposites -/

theorem halfEven_neg (x : ℚ) : halfEven (-x) = -halfEven x := by
  rcases eq_or_ne x ⌊x⌋ with hx | hx
  · rw [hx, ← Int.cast_neg, halfEven_intCast, halfEven_intCast]
  · -- off the integers the floor of the opposite is one below the opposite of the floor
    have hlo : (⌊x⌋ : ℚ) < x := lt_of_le_of_ne (Int.floor_le x) hx.symm
    have hhi : x < ⌊x⌋ + 1 := Int.lt_floor_add_one x
    have hfl : ⌊-x⌋ = -⌊x⌋ - 1 := by
      rw [Int.floor_eq_iff]
      push_cast
      constructor <;> linarith
    unfold halfEven
    rw [hfl]
    push_cast
    rcases lt_trichotomy (x - ⌊x⌋) (1 / 2) with h | h | h
    · rw [if_neg, if_pos (.inl h)]
      · ring
      · rintro (h' | ⟨h', -⟩) <;> linarith
    · have hsame : -x - (-(⌊x⌋ : ℚ) - 1) = 1 / 2 := by linarith
      rcases Int.emod_two_eq_zero_or_one ⌊x⌋ with he | he
      · rw [if_neg, if_pos (.inr ⟨h, he⟩)]
        · ring
        · rintro (h' | ⟨-, h'⟩)
          · linarith
          · omega
      · rw [if_pos (.inr ⟨hsame, by omega⟩), if_neg]
        · ring
        · rintro (h' | ⟨-, h'⟩)
          · linarith
          · omega
    · rw [if_pos (.inl (by linarith)), if_neg]
      · ring
      · rintro (h' | ⟨h', -⟩) <;> linarith

theorem roundAt_neg (b : ℕ) (k : ℤ) (q : ℚ) : roundAt b k (-q) = -roundAt b k q := by
  rw [roundAt, neg_div, halfEven_neg, roundAt]
  push_cast
  ring

theorem binary64_neg (q : ℚ) : binary64 (-q) = -binary64 q := by
  rw [binary64, binary64, lastDigit, lastDigit, abs_neg, roundAt_neg]

end FlowAlarm.Num
