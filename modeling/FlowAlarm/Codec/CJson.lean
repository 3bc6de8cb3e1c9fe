import FlowAlarm.Num.Decimal
import FlowAlarm.Text.Json
import FlowAlarm.Text.Utf8
import Mathlib.Data.List.Find

/-!
# The vendored cJSON

The parts of `third_party/cJSON/cJSON.c` on the event path: the unformatted
printer with `print_number` and `print_string_ptr`, and the parser with
`parse_number`, `parse_string` and the nesting limit. A number item is its
double; the tree keeps the literal text, which `valueDouble` converts.

* `strReads_cjson`: every string reads back.
* `valueDouble_printNumber`: which natural numbers read back.
* `reread_printNumber`: what is read once reads back from then on.
-/

namespace FlowAlarm.CJson

open FlowAlarm.Text FlowAlarm.Num

/-! ## Numbers -/

def intMax : ℤ := 2 ^ 31 - 1
def intMin : ℤ := -2 ^ 31

/-- `valueint`: the double saturated to an `int`. -/
def valueInt (d : ℚ) : ℤ :=
  if (intMax : ℚ) ≤ d then intMax
  else if d ≤ (intMin : ℚ) then intMin
  else if d < 0 then -⌊-d⌋ else ⌊d⌋

/-- `fabs(a - b) <= maxVal * DBL_EPSILON`, in double arithmetic. -/
def compareDouble (a b : ℚ) : Bool :=
  binary64 |a - b| ≤ binary64 (max |a| |b| * (2 : ℚ) ^ (-52 : ℤ))

/-- The text of a finite double: `%d`, else 15 digits if they recover it, else 17. -/
def printNumber (d : ℚ) : Bytes :=
  if d = (valueInt d : ℚ) then decInt (valueInt d)
  else
    match strtod (formatG 15 d) with
    | some (test, _) => if compareDouble (binary64 test) d then formatG 15 d else formatG 17 d
    | none => formatG 17 d

/-- The bytes `parse_number` copies. -/
def isNumberByte (b : UInt8) : Bool :=
  isDigit b || b == 0x2B || b == 0x2D || b == 0x65 || b == 0x45 || b == 0x2E

/-- `parse_number`: at most 63 bytes are copied, and `strtod` reads a number at their front. -/
def parseNumber (s : Bytes) : Option (Bytes × Bytes) :=
  match strtod ((s.takeWhile isNumberByte).take 63) with
  | none => none
  | some (_, n) => some (s.take n, s.drop n)

/-- `valuedouble` of a number literal. -/
def valueDouble (lit : Bytes) : ℚ :=
  match strtod lit with
  | none => 0
  | some (v, _) => binary64 v

/-! ## Strings -/

def escapeByte (b : UInt8) : Bytes :=
  if 31 < b ∧ b ≠ 0x22 ∧ b ≠ 0x5C then [b]
  else 0x5C ::
    (if b = 0x5C then [0x5C]
    else if b = 0x22 then [0x22]
    else if b = 0x08 then [0x62]
    else if b = 0x0C then [0x66]
    else if b = 0x0A then [0x6E]
    else if b = 0x0D then [0x72]
    else if b = 0x09 then [0x74]
    else 0x75 :: hexPad 4 b.toNat)

def printString (s : Bytes) : Bytes := s.flatMap escapeByte

/-- `parse_hex4`: zero when a digit is invalid. -/
def parseHex4 (a b c d : UInt8) : Nat :=
  match hexVal a, hexVal b, hexVal c, hexVal d with
  | some a, some b, some c, some d => ((a * 16 + b) * 16 + c) * 16 + d
  | _, _, _, _ => 0

/-- The decoding loop of `parse_string` over the bytes between the quotes. -/
def unquote : Bytes → Option Bytes
  | [] => some []
  | b :: s =>
    if b = 0x5C then
      match s with
      | [] => none
      | c :: t =>
        if c = 0x75 then
          match t with
          | h1 :: h2 :: h3 :: h4 :: u =>
            let first := parseHex4 h1 h2 h3 h4
            if 0xDC00 ≤ first ∧ first ≤ 0xDFFF then none
            else if 0xD800 ≤ first ∧ first ≤ 0xDBFF then
              match u with
              | b1 :: b2 :: k1 :: k2 :: k3 :: k4 :: v =>
                let second := parseHex4 k1 k2 k3 k4
                if b1 ≠ 0x5C ∨ b2 ≠ 0x75 ∨ second < 0xDC00 ∨ 0xDFFF < second then none
                else (unquote v).map
                  (utf8Encode (0x10000 + (first % 1024 * 1024 + second % 1024)) ++ ·)
              | _ => none
            else (unquote u).map (utf8Encode first ++ ·)
          | _ => none
        else
          match simpleEscape c with
          | none => none
          | some x => (unquote t).map (x :: ·)
    else (unquote s).map (b :: ·)

/-! ## The reader -/

def cjson : Dialect where
  isSpace b := b ≤ 0x20
  lexNumber := parseNumber
  lexString := lexQuoted unquote
  space_le b h := by simpa using h

def nestingLimit : Nat := 1000

/-- `skip_utf8_bom`. -/
def skipBom (s : Bytes) : Bytes :=
  if 4 < s.length ∧ s.take 3 = [0xEF, 0xBB, 0xBF] then s.drop 3 else s

/-- `cJSON_ParseWithLength`: what follows the value is not looked at. -/
def parseWithLength (s : Bytes) : Option Json :=
  (cjson.parse nestingLimit (cjson.skipWs (skipBom s))).map (·.1)

def printUnformatted (j : Json) : Bytes := j.print printString

/-- A C string ends at its first NUL. -/
def cString (s : Bytes) : Bytes := s.takeWhile (· ≠ 0)

def getObjectItem (j : Json) (name : Bytes) : Option Json :=
  match j with
  | .obj ms => (ms.find? fun m => cString m.1 == name).map (·.2)
  | _ => none

def isNumber : Json → Bool
  | .num _ => true
  | _ => false

theorem cString_eq_self {s : Bytes} (h : 0 ∉ s) : cString s = s :=
  List.takeWhile_eq_self_iff.mpr fun b hb => by
    simp only [decide_eq_true_eq]
    rintro rfl
    exact h hb

theorem getObjectItem_of_getElem? {ms : List (Bytes × Json)} {i : Nat} {k : Bytes} {j : Json}
    (hz : ∀ m ∈ ms, 0 ∉ m.1) (hn : (ms.map (·.1)).Nodup) (h : ms[i]? = some (k, j)) :
    getObjectItem (.obj ms) k = some j := by
  have hf : ms.find? (fun m => cString m.1 == k) = ms.find? (fun m => m.1 == k) :=
    List.find?_congr fun m hm => by rw [cString_eq_self (hz m hm)]
  rw [getObjectItem, hf, find?_name hn h, Option.map_some]

/-! ## Strings read back -/

theorem unquote_plain {b : UInt8} (h : b ≠ 0x5C) (s : Bytes) :
    unquote (b :: s) = (unquote s).map (b :: ·) := by
  rw [unquote.eq_def]
  simp [h]

theorem unquote_simple {c x : UInt8} (hc : c ≠ 0x75) (hx : simpleEscape c = some x) (t : Bytes) :
    unquote (0x5C :: c :: t) = (unquote t).map (x :: ·) := by
  rw [unquote.eq_def]
  simp [hc, hx]

theorem unquote_u {h1 h2 h3 h4 : UInt8} {n : Nat} (hn : parseHex4 h1 h2 h3 h4 = n)
    (hs : ¬ (0xD800 ≤ n ∧ n < 0xE000)) (u : Bytes) :
    unquote (0x5C :: 0x75 :: h1 :: h2 :: h3 :: h4 :: u) = (unquote u).map (utf8Encode n ++ ·) := by
  rw [unquote.eq_def]
  have e1 : ¬ (0xDC00 ≤ n ∧ n ≤ 0xDFFF) := by omega
  have e2 : ¬ (0xD800 ≤ n ∧ n ≤ 0xDBFF) := by omega
  simp [hn, e1, e2]

theorem hexPad_control : ∀ n < 32, hexPad 4 n = [0x30, 0x30, hexDigit (n / 16), hexDigit (n % 16)] ∧
    parseHex4 0x30 0x30 (hexDigit (n / 16)) (hexDigit (n % 16)) = n := by decide

theorem quotable_hexDigit : ∀ n < 16, hexDigit n ≠ 0x22 ∧ hexDigit n ≠ 0x5C := by decide

/-- One escaped byte is quotable and decodes to the byte. -/
theorem escapeByte_spec (b : UInt8) :
    Quotable (escapeByte b) ∧ ∀ s, unquote (escapeByte b ++ s) = (unquote s).map (b :: ·) := by
  unfold escapeByte
  split
  · next h =>
    exact ⟨.plain h.2.1 h.2.2 .nil, fun s => unquote_plain h.2.2 s⟩
  · next h =>
    by_cases h1 : b = 0x5C
    · subst h1
      exact ⟨.escape .nil, fun s => unquote_simple (by decide) rfl s⟩
    by_cases h2 : b = 0x22
    · subst h2
      exact ⟨.escape .nil, fun s => unquote_simple (by decide) rfl s⟩
    by_cases h3 : b = 0x08
    · subst h3
      exact ⟨.escape .nil, fun s => unquote_simple (by decide) rfl s⟩
    by_cases h4 : b = 0x0C
    · subst h4
      exact ⟨.escape .nil, fun s => unquote_simple (by decide) rfl s⟩
    by_cases h5 : b = 0x0A
    · subst h5
      exact ⟨.escape .nil, fun s => unquote_simple (by decide) rfl s⟩
    by_cases h6 : b = 0x0D
    · subst h6
      exact ⟨.escape .nil, fun s => unquote_simple (by decide) rfl s⟩
    by_cases h7 : b = 0x09
    · subst h7
      exact ⟨.escape .nil, fun s => unquote_simple (by decide) rfl s⟩
    have hlt : b.toNat < 32 := by
      by_contra hc
      refine h ⟨UInt8.lt_iff_toNat_lt.mpr ?_, h2, h1⟩
      show 31 < b.toNat
      omega
    obtain ⟨htext, hval⟩ := hexPad_control b.toNat hlt
    simp only [h1, h2, h3, h4, h5, h6, h7, if_false, htext]
    have q1 := quotable_hexDigit (b.toNat / 16) (by omega)
    have q2 := quotable_hexDigit (b.toNat % 16) (by omega)
    refine ⟨.escape (.plain (by decide) (by decide) (.plain (by decide) (by decide)
      (.plain q1.1 q1.2 (.plain q2.1 q2.2 .nil)))), fun s => ?_⟩
    have hchar : utf8Encode b.toNat = [b] := by simp [utf8Encode, show b.toNat < 0x80 by omega]
    have := unquote_u hval (by omega) s
    rw [hchar] at this
    exact this

theorem printString_quotable (s : Bytes) : Quotable (printString s) := by
  induction s with
  | nil => exact .nil
  | cons b s ih => exact (escapeByte_spec b).1.append ih

theorem unquote_printString (s : Bytes) : unquote (printString s) = some s := by
  induction s with
  | nil => rfl
  | cons b s ih =>
    rw [show printString (b :: s) = escapeByte b ++ printString s from rfl,
      (escapeByte_spec b).2, ih, Option.map_some]

theorem escapeByte_visible : ∀ n < 256,
    (escapeByte (UInt8.ofNat n)).all (fun c => !decide (c < 0x20)) = true := by
  decide +kernel

/-- An escaped string has no control bytes. -/
theorem not_mem_printString {x : UInt8} (hx : x < 0x20) (s : Bytes) : x ∉ printString s := by
  intro h
  obtain ⟨b, -, hb⟩ := List.mem_flatMap.mp h
  rw [← UInt8.ofNat_toNat (x := b)] at hb
  have hvisible := List.all_eq_true.mp (escapeByte_visible b.toNat b.toNat_lt) x hb
  rw [decide_eq_true hx] at hvisible
  cases hvisible

/-- **Every string reads back.** -/
theorem strReads_cjson (s : Bytes) : StrReads cjson printString s s := fun rest =>
  (printString_quotable s).lex (unquote_printString s) rest

/-! ## Natural numbers read back -/

theorem isNumberByte_of_isDigit {b : UInt8} (h : isDigit b = true) : isNumberByte b = true := by
  simp [isNumberByte, h]

/-- The shapes in which a natural number is printed. -/
inductive NatLit : Bytes → Prop where
  | plain (n : Nat) : NatLit (dec n)
  | exp {d : UInt8} {ds : Bytes} {x : ℤ} : (∀ b ∈ d :: ds, isDigit b = true) → d ≠ 0x30 →
      NatLit (formatExp (d :: ds) x)

theorem mem_expPart {x : ℤ} {b : UInt8} (h : b ∈ expPart x) : isNumberByte b = true := by
  have hdec : ∀ c ∈ (if x.natAbs < 10 then 0x30 :: dec x.natAbs else dec x.natAbs),
      isDigit c = true := by
    intro c hc
    split at hc
    · rcases List.mem_cons.mp hc with rfl | hc
      · decide
      · exact isDigit_of_mem_dec hc
    · exact isDigit_of_mem_dec hc
  unfold expPart at h
  rcases List.mem_cons.mp h with rfl | h
  · decide
  rcases List.mem_cons.mp h with rfl | h
  · split <;> decide
  · exact isNumberByte_of_isDigit (hdec b h)

theorem mem_formatExp {ds : Bytes} {x : ℤ} {b : UInt8} (hds : ∀ b ∈ ds, isDigit b = true)
    (h : b ∈ formatExp ds x) : isNumberByte b = true := by
  simp only [formatExp, List.mem_append] at h
  rcases h with (h | h) | h
  · exact isNumberByte_of_isDigit (hds b (List.mem_of_mem_take h))
  · unfold pointed at h
    split at h
    · cases h
    · rcases List.mem_cons.mp h with rfl | h
      · decide
      · exact isNumberByte_of_isDigit
          (hds b (List.mem_of_mem_drop ((List.rdropWhile_prefix _ _).subset h)))
  · exact mem_expPart h

theorem NatLit.bytes {l : Bytes} (h : NatLit l) : ∀ b ∈ l, isNumberByte b = true := by
  cases h with
  | plain n => exact fun b hb => isNumberByte_of_isDigit (isDigit_of_mem_dec hb)
  | exp hds => exact fun b hb => mem_formatExp hds hb

theorem NatLit.not_mem {x : UInt8} (hx : x < 0x20) {l : Bytes} (h : NatLit l) : x ∉ l := by
  intro hm
  have hb := h.bytes x hm
  have h1 := UInt8.lt_iff_toNat_lt.mp hx
  simp only [isNumberByte, Bool.or_eq_true, beq_iff_eq] at hb
  rcases hb with ((((hb | rfl) | rfl) | rfl) | rfl) | rfl
  · rw [isDigit_iff] at hb
    have h3 : (0x20 : UInt8).toNat = 32 := rfl
    omega
  all_goals exact absurd hx (by decide)

theorem NatLit.head {l : Bytes} (h : NatLit l) : ∃ b t, l = b :: t ∧ isDigit b = true := by
  cases h with
  | plain n => exact digits_cons_dec n
  | @exp d ds x hds => exact ⟨d, pointed ds ++ expPart x, by simp [formatExp],
      hds d List.mem_cons_self⟩

theorem NatLit.strtod {l : Bytes} (h : NatLit l) : ∃ v, strtod l = some (v, l.length) := by
  cases h with
  | plain n => exact ⟨_, strtod_dec n⟩
  | exp hds => exact ⟨_, strtod_formatExp hds _⟩

theorem NatLit.valueDouble_nonneg {l : Bytes} (h : NatLit l) : 0 ≤ valueDouble l := by
  cases h with
  | plain n =>
    rw [valueDouble, strtod_dec]
    exact binary64_nonneg (by positivity)
  | exp hds =>
    rw [valueDouble, strtod_formatExp hds]
    exact binary64_nonneg (mul_nonneg (by positivity) (zpow_nonneg (by norm_num) _))

/-- A printed number is read whole. -/
theorem NatLit.reads {l : Bytes} (h : NatLit l) (hlen : l.length ≤ 63) : NumReads cjson l := by
  obtain ⟨b, t, hl, hb⟩ := h.head
  refine ⟨⟨b, t, hl, .inr hb⟩, fun rest hf => ?_⟩
  have htw : (l ++ rest).takeWhile isNumberByte = l := by
    rw [List.takeWhile_append_of_pos h.bytes]
    cases rest with
    | nil => simp
    | cons c rest =>
      have hc : isNumberByte c = false := by rcases hf with rfl | rfl | rfl <;> decide
      simp [hc]
  obtain ⟨v, hv⟩ := h.strtod
  show parseNumber (l ++ rest) = some (l, rest)
  simp only [parseNumber, htw, List.take_of_length_le hlen, hv, List.take_left, List.drop_left]

theorem valueInt_nat (d : ℕ) : valueInt (d : ℚ) = min (d : ℤ) intMax := by
  have h0 : ¬ (d : ℚ) ≤ (intMin : ℚ) := by
    have : (intMin : ℚ) < 0 := by norm_num [intMin]
    have : (0 : ℚ) ≤ d := by positivity
    linarith
  have h1 : ¬ (d : ℚ) < 0 := not_lt.mpr (by positivity)
  simp only [valueInt, if_neg h0, if_neg h1, Int.floor_natCast]
  split
  · next h =>
    have : intMax ≤ (d : ℤ) := by exact_mod_cast h
    omega
  · next h =>
    have : ¬ intMax ≤ (d : ℤ) := fun hc => h (by exact_mod_cast hc)
    omega

theorem printNumber_small {d : ℕ} (h : (d : ℤ) ≤ intMax) : printNumber (d : ℚ) = dec d := by
  have hv : valueInt (d : ℚ) = d := by rw [valueInt_nat, min_eq_left h]
  have heq : (d : ℚ) = ((d : ℤ) : ℚ) := by push_cast; rfl
  have hneg : ¬ (d : ℤ) < 0 := by omega
  rw [printNumber, hv, if_pos heq, decInt, if_neg hneg, Int.natAbs_natCast]

theorem printNumber_large {d : ℕ} (h : intMax < (d : ℤ)) :
    printNumber (d : ℚ) =
      if compareDouble (binary64 (roundSig 10 15 (d : ℚ))) (d : ℚ) then formatG 15 (d : ℚ)
      else formatG 17 (d : ℚ) := by
  have hv : valueInt (d : ℚ) = intMax := by rw [valueInt_nat, min_eq_right h.le]
  have hne : ¬ (d : ℚ) = (intMax : ℚ) := by
    intro hc
    have : (d : ℤ) = intMax := by exact_mod_cast hc
    omega
  have hd : 0 < d := by simp only [intMax] at h; omega
  simp only [printNumber, hv, if_neg hne, strtod_formatG (p := 15) (by norm_num) hd]

theorem natLit_formatG {p d : ℕ} (hp : 0 < p) (hd : 0 < d) : NatLit (formatG p (d : ℚ)) := by
  rcases Nat.lt_or_ge d (10 ^ p) with h | h
  · rw [formatG_small hd h]
    exact .plain d
  · obtain ⟨c, ds, x, htext, hds, hc, -⟩ := formatG_large hp h
    rw [htext]
    exact .exp hds hc

theorem natLit_printNumber (d : ℕ) : NatLit (printNumber (d : ℚ)) := by
  rcases le_or_gt (d : ℤ) intMax with h | h
  · rw [printNumber_small h]
    exact .plain d
  · have hd : 0 < d := by simp only [intMax] at h; omega
    rw [printNumber_large h]
    split <;> exact natLit_formatG (by norm_num) hd

/-! ### Lengths -/

theorem length_dec_le {n k : ℕ} (h : n < 10 ^ k) (hk : 0 < k) : (dec n).length ≤ k := by
  rcases Nat.eq_zero_or_pos n with rfl | hn
  · rw [dec_zero, List.length_singleton]
    exact hk
  · rw [length_dec hn]
    exact Nat.log_lt_of_lt_pow (by omega) h

theorem length_expPart_le {x : ℤ} (h : x.natAbs < 10 ^ 10) : (expPart x).length ≤ 13 := by
  have hd := length_dec_le h (by norm_num)
  have hc : (if x.natAbs < 10 then 0x30 :: dec x.natAbs else dec x.natAbs).length ≤ 11 := by
    split
    · simp only [List.length_cons]
      omega
    · omega
  simp only [expPart, List.length_cons]
  omega

theorem length_formatExp_le (d : UInt8) (ds : Bytes) {x : ℤ} (h : x.natAbs < 10 ^ 10) :
    (formatExp (d :: ds) x).length ≤ ds.length + 15 := by
  have h1 := length_expPart_le h
  have h2 : (pointed ds).length ≤ ds.length + 1 := by
    unfold pointed
    split
    · simp
    · have := (List.rdropWhile_prefix (· = 0x30) ds).length_le
      simp only [stripZeros, List.length_cons]
      omega
  simp only [formatExp, List.take_succ_cons, List.take_zero, List.drop_succ_cons, List.drop_zero,
    List.length_append, List.length_cons, List.length_nil]
  omega

theorem length_formatG_le {p d : ℕ} (hp : 0 < p) (hp' : p ≤ 17) (hd : 0 < d) (h : d < 10 ^ 20) :
    (formatG p (d : ℚ)).length ≤ 31 := by
  have hlog : Nat.log 10 d < 20 := Nat.log_lt_of_lt_pow (by omega) h
  rcases Nat.lt_or_ge d (10 ^ p) with hs | hl
  · rw [formatG_small hd hs, length_dec hd]
    omega
  · obtain ⟨c, ds, x, htext, -, -, hlen, hx, hx', -⟩ := formatG_large hp hl
    rw [htext]
    have := length_formatExp_le c ds (x := x) (by
      have : x.natAbs ≤ 21 := by omega
      omega)
    omega

theorem length_printNumber_le {d : ℕ} (h : d < 10 ^ 20) : (printNumber (d : ℚ)).length ≤ 31 := by
  rcases le_or_gt (d : ℤ) intMax with hs | hl
  · rw [printNumber_small hs]
    exact (length_dec_le h (by norm_num)).trans (by norm_num)
  · have hpos : 0 < d := by simp only [intMax] at hl; omega
    rw [printNumber_large hl]
    split
    · exact length_formatG_le (by norm_num) (by norm_num) hpos h
    · exact length_formatG_le (by norm_num) (by norm_num) hpos h

/-- A 64-bit number prints within what the reader copies. -/
theorem numReads_printNumber {v : ℕ} (h : v < 2 ^ 64) :
    NumReads cjson (printNumber (binary64 (v : ℚ))) := by
  obtain ⟨d, hd, hle⟩ := binary64_nat v
  rw [hd]
  exact (natLit_printNumber d).reads ((length_printNumber_le (by omega)).trans (by norm_num))

/-! ### Negative integers -/

theorem strtod_minus {l : Bytes} {b : UInt8} {t : Bytes} (hl : l = b :: t) (hb : isDigit b = true)
    {v : ℚ} {n : ℕ} (h : strtod l = some (v, n)) : strtod (0x2D :: l) = some (-v, n + 1) := by
  subst hl
  simp only [strtod, scanSign_digit hb] at h
  simp only [strtod, scanSign, if_true]
  split at h
  · cases h
  next hne =>
    simp only [Bool.false_eq_true, if_false, Option.some.injEq, Prod.mk.injEq] at h
    rw [if_neg hne]
    simp only [Option.some.injEq, Prod.mk.injEq]
    exact ⟨by rw [← h.1], by omega⟩

theorem formatG_neg {p d : ℕ} (hd : 0 < d) : formatG p (-(d : ℚ)) = 0x2D :: formatG p (d : ℚ) := by
  have hpos : (0 : ℚ) < d := by exact_mod_cast hd
  have h1 : ¬ -(d : ℚ) = 0 := by linarith
  have h2 : ¬ (d : ℚ) = 0 := by linarith
  have h3 : -(d : ℚ) < 0 := by linarith
  have h4 : ¬ (d : ℚ) < 0 := by linarith
  simp only [formatG, if_neg h1, if_neg h2, abs_neg, if_pos h3, if_neg h4]

theorem compareDouble_neg (a b : ℚ) : compareDouble (-a) (-b) = compareDouble a b := by
  have hsub : -a - -b = -(a - b) := by ring
  rw [compareDouble, compareDouble, hsub, abs_neg, abs_neg, abs_neg]

/-- A negative integer prints as a minus and its opposite. -/
theorem printNumber_neg {d : ℕ} (hd : 0 < d) :
    printNumber (-(d : ℚ)) = 0x2D :: printNumber (d : ℚ) := by
  have hpos : (0 : ℚ) < d := by exact_mod_cast hd
  have h1 : ¬ (intMax : ℚ) ≤ -(d : ℚ) := by
    have : (0 : ℚ) < (intMax : ℚ) := by norm_num [intMax]
    linarith
  rcases le_or_gt (d : ℤ) (intMax + 1) with hs | hl
  · have hv : valueInt (-(d : ℚ)) = -(d : ℤ) := by
      unfold valueInt
      rw [if_neg h1]
      split
      · next hle =>
        have : -(d : ℤ) ≤ intMin := by exact_mod_cast hle
        simp only [intMin, intMax] at *
        omega
      · rw [if_pos (by linarith), neg_neg, Int.floor_natCast]
    have htext : printNumber (d : ℚ) = dec d := by
      rcases le_or_gt (d : ℤ) intMax with hle | hgt
      · exact printNumber_small hle
      · have h15 : d < 10 ^ 15 := by simp only [intMax] at hs; omega
        rw [printNumber_large hgt, formatG_small hd h15, formatG_small hd (by omega), ite_self]
    have heq : -(d : ℚ) = ((-(d : ℤ) : ℤ) : ℚ) := by push_cast; rfl
    have hneg : -(d : ℤ) < 0 := by omega
    rw [printNumber, hv, if_pos heq, decInt, if_pos hneg, Int.natAbs_neg, Int.natAbs_natCast, htext]
  · have hv : valueInt (-(d : ℚ)) = intMin := by
      have hle : -(d : ℚ) ≤ (intMin : ℚ) := by
        have : -(d : ℤ) ≤ intMin := by simp only [intMin, intMax] at *; omega
        exact_mod_cast this
      rw [valueInt, if_neg h1, if_pos hle]
    have hne : ¬ -(d : ℚ) = (intMin : ℚ) := by
      intro hc
      have : -(d : ℤ) = intMin := by exact_mod_cast hc
      simp only [intMin, intMax] at *
      omega
    obtain ⟨b, t, hfmt, hb⟩ := (natLit_formatG (p := 15) (by norm_num) hd).head
    have hread := strtod_minus hfmt hb (strtod_formatG (p := 15) (by norm_num) hd)
    have hlarge : intMax < (d : ℤ) := by omega
    simp only [printNumber, hv, if_neg hne, formatG_neg hd, hread, binary64_neg, compareDouble_neg]
    rw [← printNumber, printNumber_large hlarge]
    split <;> rfl

theorem NatLit.reads_minus {l : Bytes} (h : NatLit l) (hlen : l.length ≤ 62) :
    NumReads cjson (0x2D :: l) := by
  obtain ⟨b, t, hl, hb⟩ := h.head
  refine ⟨⟨0x2D, l, rfl, .inl rfl⟩, fun rest hf => ?_⟩
  have hbytes : ∀ x ∈ 0x2D :: l, isNumberByte x = true :=
    List.forall_mem_cons.mpr ⟨by decide, h.bytes⟩
  have htw : ((0x2D :: l) ++ rest).takeWhile isNumberByte = 0x2D :: l := by
    rw [List.takeWhile_append_of_pos hbytes]
    cases rest with
    | nil => simp
    | cons c rest =>
      have hc : isNumberByte c = false := by rcases hf with rfl | rfl | rfl <;> decide
      simp [hc]
  obtain ⟨v, hv⟩ := h.strtod
  have hminus := strtod_minus hl hb hv
  have htake : (0x2D :: l).take 63 = 0x2D :: l :=
    List.take_of_length_le (by simp only [List.length_cons]; omega)
  show parseNumber ((0x2D :: l) ++ rest) = some (0x2D :: l, rest)
  simp only [parseNumber, htw, htake, hminus]
  rw [← List.length_cons (a := (0x2D : UInt8)), List.take_left, List.drop_left]

/-- An integer that is a double prints to a literal the reader takes whole, on one line. -/
theorem numReads_printNumber_int {z : ℤ} (h : z.natAbs < 2 ^ 53) :
    NumReads cjson (printNumber (binary64 (z : ℚ))) ∧
      ∀ x : UInt8, x < 0x20 → x ∉ printNumber (binary64 (z : ℚ)) := by
  rcases lt_or_ge z 0 with hneg | hpos
  · obtain ⟨d, hd⟩ : ∃ d : ℕ, z = -(d : ℤ) := ⟨z.natAbs, by omega⟩
    have hcast : binary64 (z : ℚ) = -(d : ℚ) := by
      have := binary64_dyadic (m := z) (j := 0) (by
        rw [← Int.natCast_natAbs]
        exact_mod_cast h) (by norm_num)
      simpa [hd] using this
    have hlit := natLit_printNumber d
    have hlen : (printNumber (d : ℚ)).length ≤ 31 := length_printNumber_le (by omega)
    rw [hcast, printNumber_neg (by omega)]
    refine ⟨hlit.reads_minus (by omega), fun x hx hm => ?_⟩
    rcases List.mem_cons.mp hm with rfl | hm
    · exact absurd hx (by decide)
    · exact hlit.not_mem hx hm
  · obtain ⟨v, rfl⟩ := Int.eq_ofNat_of_zero_le hpos
    have hv : v < 2 ^ 64 := by omega
    obtain ⟨d, hd, -⟩ := binary64_nat v
    have hcast : (((v : ℕ) : ℤ) : ℚ) = (v : ℚ) := by push_cast; rfl
    rw [hcast]
    exact ⟨numReads_printNumber hv, fun x hx => hd ▸ (natLit_printNumber d).not_mem hx⟩

/-! ### Values -/

/-- The naturals that come back from the printer and the reader: below 2^53, and not one of those
above 2^52 that differ by one from a fifteen-digit decimal. -/
def ExactNat (v : ℕ) : Prop :=
  v < 2 ^ 53 ∧ (v < 4503599627370499 ∨ (v % 10 ≠ 1 ∧ v % 10 ≠ 9))

instance (v : ℕ) : Decidable (ExactNat v) := inferInstanceAs (Decidable (_ ∧ _))

theorem valueDouble_dec {v : ℕ} (h : v < 2 ^ 53) : valueDouble (dec v) = v := by
  rw [valueDouble, strtod_dec]
  exact binary64_natCast h

theorem valueDouble_formatG {p v : ℕ} (hp : 0 < p) (hv : 0 < v) :
    valueDouble (formatG p (v : ℚ)) = binary64 (roundSig 10 p (v : ℚ)) := by
  rw [valueDouble, strtod_formatG hp hv]

/-- Fifteen digits of a sixteen-digit number: the nearest multiple of ten. -/
theorem roundSig_sixteen {v : ℕ} (hlo : 10 ^ 15 ≤ v) (hhi : v < 10 ^ 16) :
    ∃ r : ℕ, roundSig 10 15 (v : ℚ) = r ∧ r % 10 = 0 ∧ r ≤ v + 5 ∧ v ≤ r + 5 := by
  have hlog : Nat.log 10 v = 15 := Nat.log_eq_of_pow_le_of_lt_pow hlo hhi
  have hk : lastDigit 10 15 (v : ℚ) = 1 := by
    rw [lastDigit_natCast, hlog]
    norm_num
  have hdiv := halfEven_div (a := v) (b := 10) (by norm_num)
  push_cast at hdiv
  have hround : roundSig 10 15 (v : ℚ) = (halfEven ((v : ℚ) / 10) : ℚ) * 10 := by
    rw [roundSig, hk, roundAt, zpow_one]
    rfl
  rw [hround, hdiv]
  split
  · next hc =>
    refine ⟨v / 10 * 10, by push_cast; rfl, by omega, by omega, by omega⟩
  · next hc =>
    refine ⟨(v / 10 + 1) * 10, by push_cast; rfl, by omega, by omega, by omega⟩

theorem compareDouble_nat {a b : ℕ} (ha : a < 2 ^ 53) (hb : b < 2 ^ 53) :
    compareDouble (a : ℚ) (b : ℚ) = true ↔ (max a b - min a b) * 2 ^ 52 ≤ max a b := by
  have habs : |(a : ℚ) - b| = ((max a b - min a b : ℕ) : ℚ) := by
    rw [Nat.cast_sub (min_le_max), Nat.cast_max, Nat.cast_min, max_sub_min_eq_abs, abs_sub_comm]
  have hmax : max |(a : ℚ)| |(b : ℚ)| = ((max a b : ℕ) : ℚ) := by
    rw [abs_of_nonneg (by positivity), abs_of_nonneg (by positivity), Nat.cast_max]
  have hscale : binary64 (((max a b : ℕ) : ℚ) * (2 : ℚ) ^ (-52 : ℤ)) =
      ((max a b : ℕ) : ℚ) * (2 : ℚ) ^ (-52 : ℤ) := by
    have := binary64_dyadic (m := ((max a b : ℕ) : ℤ)) (j := -52) (by
      rw [abs_of_nonneg (by positivity)]
      have : max a b < 2 ^ 53 := max_lt ha hb
      exact_mod_cast this) (by norm_num)
    simpa using this
  rw [compareDouble, habs, hmax, hscale, binary64_natCast (by omega), decide_eq_true_eq, zpow_neg,
    ← div_eq_mul_inv, le_div_iff₀ (by positivity)]
  rw [show (2 : ℚ) ^ (52 : ℤ) = ((2 ^ 52 : ℕ) : ℚ) by norm_num]
  exact_mod_cast Iff.rfl

/-- **Which natural numbers the printer and the reader preserve**, below the reader's bound. -/
theorem valueDouble_printNumber {v : ℕ} (h : v < 2 ^ 53) :
    valueDouble (printNumber (v : ℚ)) = v ↔ ExactNat v := by
  rcases le_or_gt (v : ℤ) intMax with hs | hl
  · rw [printNumber_small hs, valueDouble_dec h]
    simp only [intMax] at hs
    exact ⟨fun _ => ⟨h, .inl (by omega)⟩, fun _ => rfl⟩
  have hpos : 0 < v := by simp only [intMax] at hl; omega
  rw [printNumber_large hl]
  rcases Nat.lt_or_ge v (10 ^ 15) with h15 | h15
  · -- fifteen digits are exact
    have hr : roundSig 10 15 (v : ℚ) = v := roundSig_natCast (by norm_num) (by norm_num) h15
    have hcmp : compareDouble (binary64 (roundSig 10 15 (v : ℚ))) (v : ℚ) = true := by
      rw [hr, binary64_natCast h, compareDouble_nat h h]
      omega
    rw [if_pos hcmp, valueDouble_formatG (by norm_num) hpos, hr, binary64_natCast h]
    exact ⟨fun _ => ⟨h, .inl (by omega)⟩, fun _ => rfl⟩
  · obtain ⟨r, hr, hr0, hr1, hr2⟩ := roundSig_sixteen h15 (by omega)
    have hr53 : r < 2 ^ 53 := by omega
    rw [hr, binary64_natCast hr53]
    split
    · next hcmp =>
      rw [compareDouble_nat hr53 h] at hcmp
      rw [valueDouble_formatG (by norm_num) hpos, hr, binary64_natCast hr53]
      constructor
      · intro he
        have he : r = v := by exact_mod_cast he
        exact ⟨h, .inr (by omega)⟩
      · rintro ⟨-, hx⟩
        have : r = v := by
          -- the comparison leaves a distance of at most one, and one only above 2^52
          rcases le_total r v with hrv | hrv
          · rw [max_eq_right hrv, min_eq_left hrv] at hcmp
            omega
          · rw [max_eq_left hrv, min_eq_right hrv] at hcmp
            omega
        exact_mod_cast this
    · next hcmp =>
      have h17 : roundSig 10 17 (v : ℚ) = v :=
        roundSig_natCast (by norm_num) (by norm_num) (by omega)
      rw [valueDouble_formatG (by norm_num) hpos, h17, binary64_natCast h]
      rw [compareDouble_nat hr53 h] at hcmp
      refine ⟨fun _ => ⟨h, ?_⟩, fun _ => rfl⟩
      rcases le_total r v with hrv | hrv
      · rw [max_eq_right hrv, min_eq_left hrv] at hcmp
        omega
      · rw [max_eq_left hrv, min_eq_right hrv] at hcmp
        omega

theorem valueDouble_printNumber_pos {d : ℕ} (h : 0 < d) : 0 < valueDouble (printNumber (d : ℚ)) := by
  rcases le_or_gt (d : ℤ) intMax with hs | hl
  · have hd : d < 2 ^ 53 := by simp only [intMax] at hs; omega
    rw [printNumber_small hs, valueDouble_dec hd]
    exact_mod_cast h
  · have hg : ∀ {p : ℕ}, 0 < p → 0 < valueDouble (formatG p (d : ℚ)) := by
      intro p hp
      have h9 : ((10 : ℕ) : ℚ) ^ (9 : ℤ) ≤ (d : ℚ) := by
        have : 10 ^ 9 ≤ d := by simp only [intMax] at hl; omega
        exact_mod_cast this
      have h29 : (2 : ℚ) ^ 29 ≤ roundSig 10 p (d : ℚ) :=
        le_trans (by norm_num) (pow_le_roundSig (by norm_num) hp h9)
      rw [valueDouble_formatG hp h]
      exact lt_of_lt_of_le (by norm_num) (pow_le_binary64 h29)
    rw [printNumber_large hl]
    split
    · exact hg (by norm_num)
    · exact hg (by norm_num)

/-- **Reading settles a number**: what a printed double is read as, below the reader's bound, is
exact and prints to the same text. -/
theorem reread_printNumber {d w : ℕ} (h : valueDouble (printNumber (d : ℚ)) = w)
    (hw : w < 2 ^ 53) : ExactNat w ∧ printNumber (w : ℚ) = printNumber (d : ℚ) := by
  have bound : ∀ {n : ℕ}, binary64 (n : ℚ) = w → n < 2 ^ 53 := by
    intro n hn
    by_contra hc
    have hge : (2 : ℚ) ^ 53 ≤ (n : ℚ) := by exact_mod_cast not_lt.mp hc
    have := pow_le_binary64 hge
    rw [hn] at this
    have : 2 ^ 53 ≤ w := by exact_mod_cast this
    omega
  have keep : ∀ {n : ℕ}, binary64 (n : ℚ) = w → n = w := fun hn => by
    have := binary64_natCast (bound hn)
    rw [hn] at this
    exact_mod_cast this.symm
  have same : d = w → ExactNat w ∧ printNumber (w : ℚ) = printNumber (d : ℚ) := by
    rintro rfl
    exact ⟨(valueDouble_printNumber hw).mp h, rfl⟩
  rcases le_or_gt (d : ℤ) intMax with hs | hl
  · rw [printNumber_small hs, valueDouble, strtod_dec] at h
    exact same (keep h)
  have hpos : 0 < d := by simp only [intMax] at hl; omega
  have h17 : ∀ {p : ℕ}, 0 < p → d < 10 ^ p → valueDouble (formatG p (d : ℚ)) = w → d = w := by
    intro p hp hd hv
    rw [valueDouble_formatG hp hpos, roundSig_natCast (by norm_num) hp hd] at hv
    exact keep hv
  have hlt : d < 10 ^ 16 := by
    by_contra hc
    have hge : ∀ {p : ℕ}, 0 < p → valueDouble (formatG p (d : ℚ)) ≠ w := by
      intro p hp hv
      rw [valueDouble_formatG hp hpos] at hv
      have h16 : ((10 : ℕ) : ℚ) ^ (16 : ℤ) ≤ (d : ℚ) := by exact_mod_cast not_lt.mp hc
      have hr := pow_le_roundSig (p := p) (by norm_num) hp h16
      have h53 : (2 : ℚ) ^ 53 ≤ roundSig 10 p (d : ℚ) := le_trans (by norm_num) hr
      have := pow_le_binary64 h53
      rw [hv] at this
      have : 2 ^ 53 ≤ w := by exact_mod_cast this
      omega
    rw [printNumber_large hl] at h
    split at h
    · exact hge (by norm_num) h
    · exact hge (by norm_num) h
  by_cases hcmp : compareDouble (binary64 (roundSig 10 15 (d : ℚ))) (d : ℚ) = true
  · have hd : printNumber (d : ℚ) = formatG 15 (d : ℚ) := by rw [printNumber_large hl, if_pos hcmp]
    rw [hd] at h ⊢
    rcases Nat.lt_or_ge d (10 ^ 15) with h15 | h15
    · obtain rfl := h17 (by norm_num) h15 h
      exact ⟨⟨hw, .inl (by omega)⟩, hd⟩
    -- the fifteen digits are a multiple of ten, which is its own fifteen digits
    obtain ⟨r, hr, hr0, hr1, hr2⟩ := roundSig_sixteen h15 hlt
    rw [valueDouble_formatG (by norm_num) hpos, hr] at h
    obtain rfl := keep h
    obtain ⟨s, hs, hs0, hs1, hs2⟩ := roundSig_sixteen (v := r) (by omega) (by omega)
    obtain rfl : s = r := by omega
    have hcmp' : compareDouble (binary64 (roundSig 10 15 (s : ℚ))) (s : ℚ) = true := by
      rw [hs, binary64_natCast hw, compareDouble_nat hw hw]
      omega
    refine ⟨⟨hw, .inr (by omega)⟩, ?_⟩
    rw [printNumber_large (by simp only [intMax]; omega), if_pos hcmp']
    exact formatG_congr (by norm_num) (by omega) h15 (by rw [hs, hr])
  · have hd : printNumber (d : ℚ) = formatG 17 (d : ℚ) := by rw [printNumber_large hl, if_neg hcmp]
    rw [hd] at h
    exact same (h17 (by norm_num) (by omega) h)

end FlowAlarm.CJson
