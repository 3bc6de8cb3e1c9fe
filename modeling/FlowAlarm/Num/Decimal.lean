import FlowAlarm.Num.Rounding
import FlowAlarm.Text.Bytes
import Mathlib.Data.List.DropRight

/-!
# Printing and reading numbers

`formatG p q` is the text of C's `%.pg` for the exact value `q`; `strtod` is
the longest number at the front of a text, with its exact value (a reader
rounds it with `binary64`). For integers the printed text denotes exactly the
value rounded to `p` digits (`strtod_formatG`); up to `p` digits it is the
plain decimal text, and above it is in exponent form.
-/

namespace FlowAlarm.Num

open FlowAlarm.Text

/-! ## `%g` -/

/-- `p` significant digits and the exponent of the last one; a carry to one more digit is
renormalised. -/
def toSci (p : ℕ) (q : ℚ) : ℕ × ℤ :=
  let k := lastDigit 10 p q
  let m := (halfEven (q / (10 : ℚ) ^ k)).toNat
  if m = 10 ^ p then (10 ^ (p - 1), k + 1) else (m, k)

def stripZeros (ds : Bytes) : Bytes := ds.rdropWhile (· = 0x30)

/-- A fraction, with its point only if a digit follows. -/
def pointed (ds : Bytes) : Bytes := if stripZeros ds = [] then [] else 0x2E :: stripZeros ds

/-- The exponent part: sign and at least two digits. -/
def expPart (x : ℤ) : Bytes :=
  0x65 :: (if x < 0 then 0x2D else 0x2B) ::
    (if x.natAbs < 10 then 0x30 :: dec x.natAbs else dec x.natAbs)

/-- Exponent notation of the digits `ds` with decimal exponent `x`. -/
def formatExp (ds : Bytes) (x : ℤ) : Bytes := ds.take 1 ++ pointed (ds.drop 1) ++ expPart x

/-- Fixed notation of the digits `ds` with decimal exponent `x`. -/
def formatFixed (ds : Bytes) (x : ℤ) : Bytes :=
  if x < 0 then 0x30 :: pointed (List.replicate (x.natAbs - 1) 0x30 ++ ds)
  else ds.take (x.toNat + 1) ++ pointed (ds.drop (x.toNat + 1))

def formatG (p : ℕ) (q : ℚ) : Bytes :=
  if q = 0 then [0x30]
  else
    let (m, k) := toSci p |q|
    let x := k + (p - 1)
    let text := if -4 ≤ x ∧ x < p then formatFixed (dec m) x else formatExp (dec m) x
    if q < 0 then 0x2D :: text else text

/-! ## `strtod` -/

/-- An optional sign: whether it is a minus, the bytes it takes and the text behind it. -/
def scanSign : Bytes → Bool × ℕ × Bytes
  | [] => (false, 0, [])
  | b :: s =>
    if b = 0x2D then (true, 1, s) else if b = 0x2B then (false, 1, s) else (false, 0, b :: s)

/-- An exponent part, if one is there: its value and the bytes it takes. -/
def scanExp : Bytes → ℤ × ℕ
  | [] => (0, 0)
  | b :: s =>
    if b = 0x65 ∨ b = 0x45 then
      let (neg, n, t) := scanSign s
      let ds := t.takeWhile isDigit
      if ds = [] then (0, 0)
      else (if neg then -(decVal ds : ℤ) else decVal ds, 1 + n + ds.length)
    else (0, 0)

/-- The fraction digits behind a point, and the bytes point and digits take. -/
def scanFrac : Bytes → Bytes × ℕ
  | [] => ([], 0)
  | b :: s =>
    if b = 0x2E then (s.takeWhile isDigit, 1 + (s.takeWhile isDigit).length) else ([], 0)

/-- The exact value of the longest number at the front of the text and the bytes it takes. -/
def strtod (s : Bytes) : Option (ℚ × ℕ) :=
  let (neg, n, t) := scanSign s
  let ip := t.takeWhile isDigit
  let u := t.drop ip.length
  let (fp, m) := scanFrac u
  if ip = [] ∧ fp = [] then none
  else
    let (e, l) := scanExp (u.drop m)
    let v := (decVal (ip ++ fp) : ℚ) * (10 : ℚ) ^ (e - fp.length)
    some (if neg then -v else v, n + ip.length + m + l)

/-! ## Digit strings -/

theorem decVal_append (a b : Bytes) : decVal (a ++ b) = decVal a * 10 ^ b.length + decVal b := by
  simp only [decVal, List.reverse_append, List.map_append, Nat.ofDigits_append, List.length_map,
    List.length_reverse]
  ring

theorem decVal_replicate_zero (n : ℕ) : decVal (List.replicate n 0x30) = 0 := by
  have hz : digitVal 0x30 = 0 := by decide
  simp only [decVal, List.reverse_replicate, List.map_replicate, hz]
  induction n with
  | zero => rfl
  | succ n ih => rw [List.replicate_succ, Nat.ofDigits_cons, ih]

theorem exists_stripZeros (ds : Bytes) : ∃ z, ds = stripZeros ds ++ List.replicate z 0x30 := by
  refine ⟨(ds.rtakeWhile (· = 0x30)).length, ?_⟩
  have hz : ds.rtakeWhile (· = 0x30) = List.replicate (ds.rtakeWhile (· = 0x30)).length 0x30 := by
    refine List.eq_replicate_iff.mpr ⟨rfl, fun b hb => ?_⟩
    have := List.mem_rtakeWhile_imp hb
    simpa using this
  rw [← hz]
  exact (List.rdropWhile_append_rtakeWhile (p := (· = 0x30)) (l := ds)).symm

theorem takeWhile_digits {ds : Bytes} (h : ∀ b ∈ ds, isDigit b = true) (rest : Bytes)
    (hr : ∀ b t, rest = b :: t → isDigit b = false) : (ds ++ rest).takeWhile isDigit = ds := by
  rw [List.takeWhile_append_of_pos h]
  cases rest with
  | nil => simp
  | cons b t => simp [hr b t rfl]

theorem scanSign_digit {b : UInt8} {s : Bytes} (h : isDigit b = true) :
    scanSign (b :: s) = (false, 0, b :: s) := by
  have h1 : b ≠ 0x2D := by rintro rfl; revert h; decide
  have h2 : b ≠ 0x2B := by rintro rfl; revert h; decide
  simp [scanSign, h1, h2]

theorem digits_cons_dec (n : ℕ) : ∃ b t, dec n = b :: t ∧ isDigit b = true := by
  obtain ⟨b, t, h⟩ := List.exists_cons_of_ne_nil (dec_ne_nil n)
  exact ⟨b, t, h, isDigit_of_mem_dec (h ▸ List.mem_cons_self)⟩

/-- A plain digit string is read as its value. -/
theorem strtod_digits {ds : Bytes} (hne : ds ≠ []) (h : ∀ b ∈ ds, isDigit b = true) :
    strtod ds = some ((decVal ds : ℚ), ds.length) := by
  obtain ⟨b, t, rfl⟩ := List.exists_cons_of_ne_nil hne
  have htw : (b :: t).takeWhile isDigit = b :: t := by
    simpa using takeWhile_digits h [] (by simp)
  simp [strtod, scanSign_digit (h b List.mem_cons_self), htw, scanFrac, scanExp]

theorem strtod_dec (n : ℕ) : strtod (dec n) = some ((n : ℚ), (dec n).length) := by
  rw [strtod_digits (dec_ne_nil n) fun b => isDigit_of_mem_dec, decVal_dec]

theorem scanExp_expPart (x : ℤ) : scanExp (expPart x) = (x, (expPart x).length) := by
  have hds : ∀ b ∈ (if x.natAbs < 10 then 0x30 :: dec x.natAbs else dec x.natAbs),
      isDigit b = true := by
    intro b hb
    split at hb
    · rcases List.mem_cons.mp hb with rfl | hb
      · decide
      · exact isDigit_of_mem_dec hb
    · exact isDigit_of_mem_dec hb
  have hval : decVal (if x.natAbs < 10 then 0x30 :: dec x.natAbs else dec x.natAbs) = x.natAbs := by
    split
    · have := decVal_append [0x30] (dec x.natAbs)
      rw [List.singleton_append, show decVal [0x30] = 0 from rfl, zero_mul, zero_add] at this
      rw [this, decVal_dec]
    · exact decVal_dec _
  have hne : (if x.natAbs < 10 then 0x30 :: dec x.natAbs else dec x.natAbs) ≠ [] := by
    split
    · simp
    · exact dec_ne_nil _
  have htw := takeWhile_digits hds [] (by simp)
  rw [List.append_nil] at htw
  unfold expPart
  generalize (if x.natAbs < 10 then 0x30 :: dec x.natAbs else dec x.natAbs) = ds at *
  rcases lt_or_ge x 0 with hx | hx
  · simp only [scanExp, true_or, if_true, if_pos hx, scanSign, htw, if_neg hne, hval,
      List.length_cons, Prod.mk.injEq]
    omega
  · simp only [scanExp, true_or, if_true, if_neg (not_lt.mpr hx), scanSign, htw, if_neg hne, hval,
      List.length_cons, show (0x2B : UInt8) ≠ 0x2D by decide, if_false, Bool.false_eq_true,
      Prod.mk.injEq]
    omega

theorem expPart_head (x : ℤ) : ∃ t, expPart x = 0x65 :: t := ⟨_, rfl⟩

theorem scanFrac_pointed {ds rest : Bytes} (h : ∀ b ∈ ds, isDigit b = true)
    (hr : ∃ t, rest = 0x65 :: t) :
    scanFrac (pointed ds ++ rest) = (stripZeros ds, (pointed ds).length) := by
  obtain ⟨t, rfl⟩ := hr
  have hs : ∀ b ∈ stripZeros ds, isDigit b = true := fun b hb =>
    h b ((List.rdropWhile_prefix _ _).subset hb)
  unfold pointed
  split
  · next he => simp [scanFrac, he]
  · have htw := takeWhile_digits hs (0x65 :: t) (by rintro b u ⟨⟩; decide)
    simp only [List.cons_append, scanFrac, if_true, htw, List.length_cons, Prod.mk.injEq, true_and]
    omega

/-- Exponent notation denotes exactly its digits. -/
theorem strtod_formatExp {d : UInt8} {ds : Bytes} (h : ∀ b ∈ d :: ds, isDigit b = true) (x : ℤ) :
    strtod (formatExp (d :: ds) x) =
      some ((decVal (d :: ds) : ℚ) * (10 : ℚ) ^ (x - ds.length), (formatExp (d :: ds) x).length) := by
  have hd := h d List.mem_cons_self
  have hds : ∀ b ∈ ds, isDigit b = true := fun b hb => h b (List.mem_cons_of_mem _ hb)
  obtain ⟨z, hz⟩ := exists_stripZeros ds
  obtain ⟨t, ht⟩ := expPart_head x
  have htext : formatExp (d :: ds) x = d :: (pointed ds ++ expPart x) := by
    simp [formatExp]
  have hnd : ∀ b t', pointed ds ++ expPart x = b :: t' → isDigit b = false := by
    intro b t' hb
    unfold pointed at hb
    split at hb
    · rw [ht] at hb
      simp only [List.nil_append, List.cons.injEq] at hb
      rw [← hb.1]
      decide
    · simp only [List.cons_append, List.cons.injEq] at hb
      rw [← hb.1]
      decide
  have htw : (d :: (pointed ds ++ expPart x)).takeWhile isDigit = [d] := by
    have hone : ∀ b ∈ [d], isDigit b = true := by simpa using hd
    have := takeWhile_digits hone (pointed ds ++ expPart x) hnd
    simpa using this
  have hval : (decVal (d :: ds) : ℚ) = decVal (d :: stripZeros ds) * (10 : ℚ) ^ z := by
    conv_lhs => rw [hz]
    rw [← List.cons_append, decVal_append, decVal_replicate_zero, List.length_replicate]
    push_cast
    ring
  have hlen : (ds.length : ℤ) = (stripZeros ds).length + z := by
    conv_lhs => rw [hz]
    simp
  rw [htext]
  simp only [strtod, scanSign_digit hd, htw, List.length_singleton, List.drop_succ_cons,
    List.drop_zero, scanFrac_pointed hds ⟨t, ht⟩, List.drop_left, scanExp_expPart]
  simp only [List.cons_ne_nil, false_and, if_false, List.cons_append, List.nil_append,
    Bool.false_eq_true, List.length_cons, List.length_append, Option.some.injEq, Prod.mk.injEq]
  refine ⟨?_, by omega⟩
  rw [hval, hlen, mul_assoc, ← zpow_natCast (10 : ℚ) z, ← zpow_add₀ (by norm_num)]
  congr 2
  omega

/-! ## Printing integers -/

theorem toSci_small {p n : ℕ} (hn : 0 < n) (h : n < 10 ^ p) :
    toSci p (n : ℚ) = (n * 10 ^ (p - 1 - Nat.log 10 n), (Nat.log 10 n : ℤ) - (p - 1)) := by
  have hp : 0 < p := by
    rcases Nat.eq_zero_or_pos p with rfl | hp
    · simp at h; omega
    · exact hp
  have hlog : Nat.log 10 n < p := Nat.log_lt_of_lt_pow (by omega) h
  have hk : lastDigit 10 p (n : ℚ) = -((p - 1 - Nat.log 10 n : ℕ) : ℤ) := by
    rw [lastDigit_natCast]
    omega
  have hm : halfEven ((n : ℚ) / (10 : ℚ) ^ lastDigit 10 p (n : ℚ)) =
      ((n * 10 ^ (p - 1 - Nat.log 10 n) : ℕ) : ℤ) := by
    rw [hk, zpow_neg, zpow_natCast, div_inv_eq_mul]
    have := halfEven_intCast ((n * 10 ^ (p - 1 - Nat.log 10 n) : ℕ) : ℤ)
    rw [← this]
    push_cast
    rfl
  have hlt : n * 10 ^ (p - 1 - Nat.log 10 n) < 10 ^ p := by
    have h1 : n < 10 ^ (Nat.log 10 n + 1) := Nat.lt_pow_succ_log_self (by omega) n
    calc n * 10 ^ (p - 1 - Nat.log 10 n)
        < 10 ^ (Nat.log 10 n + 1) * 10 ^ (p - 1 - Nat.log 10 n) :=
          Nat.mul_lt_mul_of_pos_right h1 (Nat.pow_pos (by omega))
      _ = 10 ^ p := by rw [← Nat.pow_add]; congr 1; omega
  simp only [toSci, hm, Int.toNat_natCast, if_neg (Nat.ne_of_lt hlt), Prod.mk.injEq, true_and]
  rw [hk]
  omega

theorem pointed_zeros (z : ℕ) : pointed (List.replicate z 0x30) = [] := by
  have : stripZeros (List.replicate z 0x30) = [] := by
    rw [stripZeros, List.rdropWhile_eq_nil_iff]
    intro b hb
    simpa using (List.mem_replicate.mp hb).2
  simp [pointed, this]

/-- Up to `p` digits an integer prints as its plain decimal text. -/
theorem formatG_small {p n : ℕ} (hn : 0 < n) (h : n < 10 ^ p) : formatG p (n : ℚ) = dec n := by
  have hlog : Nat.log 10 n < p := Nat.log_lt_of_lt_pow (by omega) h
  have habs : |(n : ℚ)| = (n : ℚ) := abs_of_nonneg (by positivity)
  have hx : (Nat.log 10 n : ℤ) - (p - 1) + (p - 1) = Nat.log 10 n := by ring
  have hne : (n : ℚ) ≠ 0 := by positivity
  have hneg : ¬ (n : ℚ) < 0 := not_lt.mpr (by positivity)
  simp only [formatG, if_neg hne, habs, toSci_small hn h, hx, if_neg hneg]
  rw [if_pos ⟨by omega, by omega⟩, formatFixed, if_neg (by omega), dec_mul_pow hn,
    Int.toNat_natCast, ← length_dec hn, List.take_left, List.drop_left, pointed_zeros,
    List.append_nil]

/-- A quotient by the power below its leading digit has `p` digits. -/
theorem halfEven_bounds {p n : ℕ} (hp : 0 < p) (hn : 10 ^ p ≤ n) :
    (10 : ℤ) ^ (p - 1) ≤ halfEven ((n : ℚ) / (10 : ℚ) ^ (Nat.log 10 n + 1 - p)) ∧
      halfEven ((n : ℚ) / (10 : ℚ) ^ (Nat.log 10 n + 1 - p)) ≤ (10 : ℤ) ^ p := by
  have hn0 : n ≠ 0 := by
    have : 0 < 10 ^ p := Nat.pow_pos (by omega)
    omega
  have hlog : p ≤ Nat.log 10 n := Nat.le_log_of_pow_le (by omega) hn
  set j := Nat.log 10 n + 1 - p with hj
  have hlo : 10 ^ (p - 1) * 10 ^ j ≤ n := by
    rw [← Nat.pow_add]
    have : p - 1 + j = Nat.log 10 n := by omega
    rw [this]
    exact Nat.pow_log_le_self 10 hn0
  have hhi : n < 10 ^ p * 10 ^ j := by
    rw [← Nat.pow_add]
    have : p + j = Nat.log 10 n + 1 := by omega
    rw [this]
    exact Nat.lt_pow_succ_log_self (by omega) n
  have hjp : 0 < 10 ^ j := Nat.pow_pos (by omega)
  have hdiv := halfEven_div (a := n) hjp
  push_cast at hdiv
  rw [hdiv]
  have h1 : 10 ^ (p - 1) ≤ n / 10 ^ j := (Nat.le_div_iff_mul_le hjp).mpr hlo
  have h2 : n / 10 ^ j < 10 ^ p := (Nat.div_lt_iff_lt_mul hjp).mpr hhi
  have h1' : ((10 : ℤ) ^ (p - 1)) ≤ ((n / 10 ^ j : ℕ) : ℤ) := by exact_mod_cast h1
  have h2' : ((n / 10 ^ j : ℕ) : ℤ) < (10 : ℤ) ^ p := by exact_mod_cast h2
  push_cast at h1' h2'
  split <;> constructor <;> omega

/-- Above `p` digits: the mantissa has `p` digits and, scaled, is the rounded value. -/
theorem toSci_large {p n : ℕ} (hp : 0 < p) (hn : 10 ^ p ≤ n) :
    ∃ m k : ℕ, toSci p (n : ℚ) = (m, (k : ℤ)) ∧ 0 < k ∧ k + p ≤ Nat.log 10 n + 2 ∧
      10 ^ (p - 1) ≤ m ∧ m < 10 ^ p ∧
      (m : ℚ) * (10 : ℚ) ^ k = roundSig 10 p (n : ℚ) := by
  have hlog : p ≤ Nat.log 10 n := Nat.le_log_of_pow_le (by omega) hn
  have hk : lastDigit 10 p (n : ℚ) = ((Nat.log 10 n + 1 - p : ℕ) : ℤ) := by
    rw [lastDigit_natCast]
    omega
  obtain ⟨hlo, hhi⟩ := halfEven_bounds hp hn
  set j := Nat.log 10 n + 1 - p with hj
  obtain ⟨m, hm⟩ : ∃ m : ℕ, halfEven ((n : ℚ) / (10 : ℚ) ^ j) = m :=
    Int.eq_ofNat_of_zero_le (le_trans (by positivity) hlo)
  have hround : roundSig 10 p (n : ℚ) = (m : ℚ) * (10 : ℚ) ^ j := by
    rw [roundSig, hk, roundAt]
    push_cast
    rw [zpow_natCast, hm]
    simp
  rw [hm] at hlo hhi
  have hlo' : 10 ^ (p - 1) ≤ m := by exact_mod_cast hlo
  have hhi' : m ≤ 10 ^ p := by exact_mod_cast hhi
  by_cases hc : m = 10 ^ p
  · refine ⟨10 ^ (p - 1), j + 1, ?_, by omega, by omega, le_rfl,
      Nat.pow_lt_pow_right (by omega) (by omega), ?_⟩
    · simp only [toSci, hk, zpow_natCast, hm, Int.toNat_natCast, if_pos hc]
      push_cast
      rfl
    · rw [hround, hc]
      have h10 : (10 : ℚ) ^ p = (10 : ℚ) ^ (p - 1) * 10 := by
        rw [← pow_succ]
        congr 1
        omega
      push_cast
      rw [h10]
      ring
  · refine ⟨m, j, ?_, by omega, by omega, hlo', by omega, hround.symm⟩
    simp only [toSci, hk, zpow_natCast, hm, Int.toNat_natCast, if_neg hc]

/-- Above `p` digits an integer prints in exponent notation, its digits being the rounded value. -/
theorem formatG_large {p n : ℕ} (hp : 0 < p) (hn : 10 ^ p ≤ n) :
    ∃ (d : UInt8) (ds : Bytes) (x : ℤ), formatG p (n : ℚ) = formatExp (d :: ds) x ∧
      (∀ b ∈ d :: ds, isDigit b = true) ∧ d ≠ 0x30 ∧ ds.length = p - 1 ∧ (p : ℤ) ≤ x ∧
      x ≤ Nat.log 10 n + 1 ∧
      (decVal (d :: ds) : ℚ) * (10 : ℚ) ^ (x - ds.length) = roundSig 10 p (n : ℚ) := by
  obtain ⟨m, k, hsci, hk, hk', hlo, hhi, hval⟩ := toSci_large hp hn
  have hm : 0 < m := Nat.lt_of_lt_of_le (Nat.pow_pos (by omega)) hlo
  obtain ⟨d, ds, hdec, -, hd⟩ := head_dec_ne_zero hm
  have hlen : ds.length = p - 1 := by
    have h1 := length_dec hm
    have h2 : Nat.log 10 m = p - 1 := Nat.log_eq_of_pow_le_of_lt_pow hlo (by
      have : p - 1 + 1 = p := by omega
      rw [this]
      exact hhi)
    rw [hdec, List.length_cons] at h1
    omega
  have hn0 : 0 < n := Nat.lt_of_lt_of_le (Nat.pow_pos (by omega)) hn
  have habs : |(n : ℚ)| = (n : ℚ) := abs_of_nonneg (by positivity)
  have hne : (n : ℚ) ≠ 0 := by positivity
  have hneg : ¬ (n : ℚ) < 0 := not_lt.mpr (by positivity)
  refine ⟨d, ds, (k : ℤ) + (p - 1), ?_, fun b hb => isDigit_of_mem_dec (hdec ▸ hb), hd, hlen,
    by omega, by omega, ?_⟩
  · simp only [formatG, if_neg hne, habs, hsci, if_neg hneg]
    rw [if_neg (by omega), hdec]
  · rw [← hval, ← hdec, decVal_dec]
    congr 1
    rw [hlen, ← zpow_natCast]
    congr 1
    omega

/-- The printed text denotes the value rounded to `p` digits. -/
theorem strtod_formatG {p n : ℕ} (hp : 0 < p) (hn : 0 < n) :
    strtod (formatG p (n : ℚ)) = some (roundSig 10 p (n : ℚ), (formatG p (n : ℚ)).length) := by
  rcases Nat.lt_or_ge n (10 ^ p) with h | h
  · rw [formatG_small hn h, strtod_dec, roundSig_natCast (by omega) hp h]
  · obtain ⟨d, ds, x, htext, hds, -, -, -, -, hval⟩ := formatG_large hp h
    rw [htext, strtod_formatExp hds, hval]

/-- Above `p` digits the text depends on the rounded value only. -/
theorem formatG_congr {p n n' : ℕ} (hp : 0 < p) (hn : 10 ^ p ≤ n) (hn' : 10 ^ p ≤ n')
    (h : roundSig 10 p (n : ℚ) = roundSig 10 p (n' : ℚ)) :
    formatG p (n : ℚ) = formatG p (n' : ℚ) := by
  obtain ⟨m, k, hsci, -, -, hlo, hhi, hval⟩ := toSci_large hp hn
  obtain ⟨m', k', hsci', -, -, hlo', hhi', hval'⟩ := toSci_large hp hn'
  have hmk : m * 10 ^ k = m' * 10 ^ k' := by
    have : (m : ℚ) * (10 : ℚ) ^ k = (m' : ℚ) * (10 : ℚ) ^ k' := by rw [hval, hval', h]
    exact_mod_cast this
  have shorter : ∀ {a b i j : ℕ}, 10 ^ (p - 1) ≤ b → a < 10 ^ p → a * 10 ^ i = b * 10 ^ j →
      j ≤ i := by
    intro a b i j hb ha heq
    by_contra hlt
    obtain ⟨d, rfl⟩ : ∃ d, j = i + 1 + d := ⟨j - (i + 1), by omega⟩
    have hai : a = b * 10 ^ (1 + d) := by
      refine Nat.eq_of_mul_eq_mul_right (Nat.pow_pos (n := i) (by norm_num : 0 < 10)) ?_
      rw [heq, Nat.mul_assoc, ← Nat.pow_add]
      congr 2
      omega
    have hge : 10 ^ (p - 1) * 10 ^ 1 ≤ b * 10 ^ (1 + d) :=
      Nat.mul_le_mul hb (Nat.pow_le_pow_right (by norm_num) (by omega))
    rw [← Nat.pow_add, show p - 1 + 1 = p by omega] at hge
    omega
  obtain rfl : k = k' := le_antisymm (shorter hlo hhi' hmk.symm) (shorter hlo' hhi hmk)
  obtain rfl : m = m' := Nat.eq_of_mul_eq_mul_right (Nat.pow_pos (by norm_num)) hmk
  have hpos : 0 < 10 ^ p := Nat.pow_pos (by norm_num)
  have hne : (n : ℚ) ≠ 0 := by
    have : 0 < n := by omega
    positivity
  have hne' : (n' : ℚ) ≠ 0 := by
    have : 0 < n' := by omega
    positivity
  have habs : ∀ i : ℕ, |(i : ℚ)| = (i : ℚ) := fun i => abs_of_nonneg (by positivity)
  have hneg : ∀ i : ℕ, ¬ (i : ℚ) < 0 := fun i => not_lt.mpr (by positivity)
  simp only [formatG, if_neg hne, if_neg hne', habs, hsci, hsci', if_neg (hneg _)]

end FlowAlarm.Num
