import FlowAlarm.Text.Json
import FlowAlarm.Text.Utf8

/-!
# The JSON of Go's `encoding/json`

The reader's dialect (strict number grammar, strings decoded with bytes
outside UTF-8 replaced by U+FFFD) and the writer's escaping, which also hides
`<`, `>`, `&` and the line separators.

* `strReads_escape`: a written string is read as its sanitized self.
* `go_local`: the dialect reads a value without looking behind it.
-/

namespace FlowAlarm.GoJson

open FlowAlarm.Text

/-! ## Numbers -/

def spanDigits (s : Bytes) : Bytes × Bytes := (s.takeWhile isDigit, s.dropWhile isDigit)

def expSign (s : Bytes) : Bytes × Bytes :=
  match s with
  | [] => ([], [])
  | b :: t => if b = 0x2B ∨ b = 0x2D then ([b], t) else ([], b :: t)

/-- The exponent of a number, `acc` being the literal so far. -/
def lexExp (acc s : Bytes) : Option (Bytes × Bytes) :=
  match s with
  | [] => some (acc, [])
  | e :: t =>
    if e = 0x65 ∨ e = 0x45 then
      let (sign, u) := expSign t
      let (ds, r) := spanDigits u
      if ds = [] then none else some (acc ++ e :: (sign ++ ds), r)
    else some (acc, e :: t)

/-- The fraction and exponent of a number. -/
def lexFrac (acc s : Bytes) : Option (Bytes × Bytes) :=
  match s with
  | [] => some (acc, [])
  | p :: t =>
    if p = 0x2E then
      let (ds, r) := spanDigits t
      if ds = [] then none else lexExp (acc ++ p :: ds) r
    else lexExp acc (p :: t)

/-- The digits of a number behind its sign. -/
def lexInt (acc s : Bytes) : Option (Bytes × Bytes) :=
  match s with
  | [] => none
  | b :: t =>
    if b = 0x30 then lexFrac (acc ++ [b]) t
    else if isDigit b then
      let (ds, r) := spanDigits t
      lexFrac (acc ++ b :: ds) r
    else none

def lexNumber (s : Bytes) : Option (Bytes × Bytes) :=
  match s with
  | [] => none
  | b :: t => if b = 0x2D then lexInt [b] t else lexInt [] (b :: t)

/-- `strconv.ParseUint(lit, 10, bits)`. -/
def parseUint (bits : Nat) (lit : Bytes) : Option Nat :=
  if lit ≠ [] ∧ lit.all isDigit ∧ decVal lit < 2 ^ bits then some (decVal lit) else none

/-- `strconv.ParseInt(lit, 10, bits)`. -/
def parseInt (bits : Nat) (lit : Bytes) : Option Int :=
  match lit with
  | [] => none
  | b :: ds =>
    let (neg, ds) := if b = 0x2D then (true, ds) else if b = 0x2B then (false, ds) else (false, lit)
    let v : Int := if neg then -(decVal ds : Int) else decVal ds
    if ds ≠ [] ∧ ds.all isDigit ∧ -(2 ^ (bits - 1) : Int) ≤ v ∧ v < 2 ^ (bits - 1) then some v
    else none

/-- `strconv.ParseInt` for a counter that is not bounded here. -/
def parseCount (lit : Bytes) : Option Int :=
  match lit with
  | [] => none
  | b :: ds =>
    if b = 0x2D then if ds ≠ [] ∧ ds.all isDigit then some (-(decVal ds : Int)) else none
    else if lit.all isDigit then some (decVal lit) else none

/-! ## Strings -/

/-- `getu4`: four hexadecimal digits. -/
def getu4 (a b c d : UInt8) : Option Nat :=
  match hexVal a, hexVal b, hexVal c, hexVal d with
  | some a, some b, some c, some d => some (((a * 16 + b) * 16 + c) * 16 + d)
  | _, _, _, _ => none

/-- `utf16.DecodeRune` of two surrogates. -/
def decodeSurrogates (r1 r2 : Nat) : Option Nat :=
  if 0xD800 ≤ r1 ∧ r1 < 0xDC00 ∧ 0xDC00 ≤ r2 ∧ r2 < 0xE000 then
    some ((r1 - 0xD800) * 1024 + (r2 - 0xDC00) + 0x10000)
  else none

/-- `unquote` with the first `k` bytes known to complete a character. -/
def unquoteFrom : Nat → Bytes → Option Bytes
  | _, [] => some []
  | k + 1, b :: s => (unquoteFrom k s).map (b :: ·)
  | 0, b :: s =>
    if b = 0x5C then
      match s with
      | [] => none
      | c :: t =>
        if c = 0x75 then
          match t with
          | h1 :: h2 :: h3 :: h4 :: u =>
            match getu4 h1 h2 h3 h4 with
            | none => none
            | some r =>
              if 0xD800 ≤ r ∧ r < 0xE000 then
                match u with
                | b1 :: b2 :: k1 :: k2 :: k3 :: k4 :: v =>
                  match if b1 = 0x5C ∧ b2 = 0x75 then getu4 k1 k2 k3 k4 else none with
                  | some r2 =>
                    match decodeSurrogates r r2 with
                    | some cp => (unquoteFrom 0 v).map (utf8Encode cp ++ ·)
                    | none => (unquoteFrom 0 (b1 :: b2 :: k1 :: k2 :: k3 :: k4 :: v)).map
                        (replacement ++ ·)
                  | none => (unquoteFrom 0 (b1 :: b2 :: k1 :: k2 :: k3 :: k4 :: v)).map
                      (replacement ++ ·)
                | u => (unquoteFrom 0 u).map (replacement ++ ·)
              else (unquoteFrom 0 u).map (utf8Encode r ++ ·)
          | _ => none
        else
          match simpleEscape c with
          | none => none
          | some x => (unquoteFrom 0 t).map (x :: ·)
    else if b < 0x20 then none
    else if b < 0x80 then (unquoteFrom 0 s).map (b :: ·)
    else
      match runeTail b s with
      | some n => (unquoteFrom n s).map (b :: ·)
      | none => (unquoteFrom 0 s).map (replacement ++ ·)

/-- `unquoteBytes` of the bytes between the quotes, with the checks of the scanner. -/
def unquote (s : Bytes) : Option Bytes := unquoteFrom 0 s

def htmlSafe (b : UInt8) : Bool :=
  0x20 ≤ b && b != 0x22 && b != 0x5C && b != 0x3C && b != 0x3E && b != 0x26

def escapeAscii (b : UInt8) : Bytes :=
  if htmlSafe b then [b]
  else 0x5C ::
    (if b = 0x5C ∨ b = 0x22 then [b]
    else if b = 0x08 then [0x62]
    else if b = 0x0C then [0x66]
    else if b = 0x0A then [0x6E]
    else if b = 0x0D then [0x72]
    else if b = 0x09 then [0x74]
    else [0x75, 0x30, 0x30, hexDigit (b.toNat / 16), hexDigit (b.toNat % 16)])

/-- The last byte of U+2028 or U+2029 led by `b`. -/
def lineSeparator (b : UInt8) (s : Bytes) : Option UInt8 :=
  if b = 0xE2 then
    match s with
    | c :: d :: _ => if c = 0x80 ∧ (d = 0xA8 ∨ d = 0xA9) then some d else none
    | _ => none
  else none

/-- `escape` with the next `k` bytes copied or dropped. -/
def escapeFrom : Bool → Nat → Bytes → Bytes
  | _, _, [] => []
  | copy, k + 1, b :: s => if copy then b :: escapeFrom copy k s else escapeFrom copy k s
  | _, 0, b :: s =>
    if b < 0x80 then escapeAscii b ++ escapeFrom true 0 s
    else
      match runeTail b s with
      | none => ascii "\\ufffd" ++ escapeFrom true 0 s
      | some n =>
        match lineSeparator b s with
        | some d => ascii "\\u202" ++ hexDigit (d.toNat % 16) :: escapeFrom false 2 s
        | none => b :: escapeFrom true n s

/-- `appendString` with HTML escaping, without the quotes. -/
def escape (s : Bytes) : Bytes := escapeFrom true 0 s

/-! ## The reader -/

def go : Dialect where
  isSpace b := b == 0x20 || b == 0x09 || b == 0x0A || b == 0x0D
  lexNumber := lexNumber
  lexString := lexQuoted unquote
  space_le b h := by
    simp only [Bool.or_eq_true, beq_iff_eq] at h
    rcases h with ((rfl | rfl) | rfl) | rfl <;> decide

def maxNestingDepth : Nat := 10000

/-- The value a text denotes, with nothing but white space around it. -/
def readValue (s : Bytes) : Option Json :=
  match go.parse maxNestingDepth (go.skipWs s) with
  | none => none
  | some (j, r) => if go.skipWs r = [] then some j else none

def marshal (j : Json) : Bytes := j.print escape

/-! ## Locality -/

theorem spanDigits_append {s : Bytes} (q : Bytes) (h : (spanDigits s).2 ≠ []) :
    spanDigits (s ++ q) = ((spanDigits s).1, (spanDigits s).2 ++ q) := by
  induction s with
  | nil => exact absurd rfl h
  | cons b s ih =>
    simp only [spanDigits, List.cons_append, List.takeWhile_cons, List.dropWhile_cons] at ih h ⊢
    by_cases hb : isDigit b = true
    · simp only [hb, if_true, Prod.mk.injEq] at ih h ⊢
      obtain ⟨h1, h2⟩ := ih h
      exact ⟨by rw [h1], h2⟩
    · simp [hb]

theorem expSign_append {s : Bytes} (q : Bytes) (h : s ≠ []) :
    expSign (s ++ q) = ((expSign s).1, (expSign s).2 ++ q) := by
  cases s with
  | nil => exact absurd rfl h
  | cons b t =>
    simp only [expSign, List.cons_append]
    split <;> rfl

theorem lexExp_append {acc s l r : Bytes} (q : Bytes) (h : lexExp acc s = some (l, r))
    (hr : r ≠ []) : lexExp acc (s ++ q) = some (l, r ++ q) := by
  cases s with
  | nil =>
    simp only [lexExp, Option.some.injEq, Prod.mk.injEq] at h
    exact absurd h.2.symm hr
  | cons e t =>
    simp only [lexExp, List.cons_append] at h ⊢
    split at h
    · next he =>
      rw [if_pos he]
      split at h
      · cases h
      · next hds =>
        simp only [Option.some.injEq, Prod.mk.injEq] at h
        obtain ⟨rfl, rfl⟩ := h
        have ht : t ≠ [] := by
          rintro rfl
          exact hds rfl
        rw [expSign_append q ht]
        simp only [spanDigits_append q hr, if_neg hds]
    · next he =>
      simp only [Option.some.injEq, Prod.mk.injEq] at h
      obtain ⟨rfl, rfl⟩ := h
      rw [if_neg he]
      rfl

/-- A reader that goes on from a rest it has not exhausted. -/
theorem lexExp_nil {acc l r : Bytes} (h : lexExp acc [] = some (l, r)) : r = [] := by
  simp only [lexExp, Option.some.injEq, Prod.mk.injEq] at h
  exact h.2.symm

theorem lexFrac_append {acc s l r : Bytes} (q : Bytes) (h : lexFrac acc s = some (l, r))
    (hr : r ≠ []) : lexFrac acc (s ++ q) = some (l, r ++ q) := by
  cases s with
  | nil =>
    simp only [lexFrac, Option.some.injEq, Prod.mk.injEq] at h
    exact absurd h.2.symm hr
  | cons p t =>
    simp only [lexFrac, List.cons_append] at h ⊢
    split at h
    · next hp =>
      rw [if_pos hp]
      split at h
      · cases h
      · next hds =>
        have hne : (spanDigits t).2 ≠ [] := fun hc => hr (lexExp_nil (hc ▸ h))
        simp only [spanDigits_append q hne, if_neg hds]
        exact lexExp_append q h hr
    · next hp =>
      rw [if_neg hp]
      exact lexExp_append q h hr

theorem lexFrac_nil {acc l r : Bytes} (h : lexFrac acc [] = some (l, r)) : r = [] := by
  simp only [lexFrac, Option.some.injEq, Prod.mk.injEq] at h
  exact h.2.symm

theorem lexInt_append {acc s l r : Bytes} (q : Bytes) (h : lexInt acc s = some (l, r))
    (hr : r ≠ []) : lexInt acc (s ++ q) = some (l, r ++ q) := by
  cases s with
  | nil => cases h
  | cons b t =>
    simp only [lexInt, List.cons_append] at h ⊢
    split at h
    · next hb =>
      rw [if_pos hb]
      exact lexFrac_append q h hr
    · next hb =>
      rw [if_neg hb]
      split at h
      · next hd =>
        have hne : (spanDigits t).2 ≠ [] := fun hc => hr (lexFrac_nil (hc ▸ h))
        rw [if_pos hd, spanDigits_append q hne]
        exact lexFrac_append q h hr
      · cases h

/-- **The reader does not look behind a value.** -/
theorem go_local : go.Local where
  str q h := lexQuoted_append q h
  num := fun {s l r} q h hr => by
    show lexNumber (s ++ q) = some (l, r ++ q)
    have h : lexNumber s = some (l, r) := h
    cases s with
    | nil => cases h
    | cons b t =>
      simp only [lexNumber, List.cons_append] at h ⊢
      split at h
      · next hb =>
        rw [if_pos hb]
        exact lexInt_append q h hr
      · next hb =>
        rw [if_neg hb, ← List.cons_append]
        exact lexInt_append q h hr

/-! ## Numbers read back -/

theorem spanDigits_digits {ds rest : Bytes} (h : ∀ b ∈ ds, isDigit b = true)
    (hr : ∀ b t, rest = b :: t → isDigit b = false) : spanDigits (ds ++ rest) = (ds, rest) := by
  have hrest : rest.takeWhile isDigit = [] ∧ rest.dropWhile isDigit = rest := by
    cases rest with
    | nil => exact ⟨rfl, rfl⟩
    | cons b t => simp [hr b t rfl]
  simp only [spanDigits, List.takeWhile_append_of_pos h, List.dropWhile_append_of_pos h, hrest,
    List.append_nil]

theorem follow_not_digit {rest : Bytes} (h : Follow rest) :
    ∀ b t, rest = b :: t → isDigit b = false := by
  rintro b t rfl
  rcases h with rfl | rfl | rfl <;> decide

theorem lexExp_follow {rest : Bytes} (acc : Bytes) (h : Follow rest) :
    lexExp acc rest = some (acc, rest) := by
  cases rest with
  | nil => rfl
  | cons b t =>
    have hb : ¬ (b = 0x65 ∨ b = 0x45) := by rcases h with rfl | rfl | rfl <;> decide
    rw [lexExp, if_neg hb]

theorem lexFrac_follow {rest : Bytes} (acc : Bytes) (h : Follow rest) :
    lexFrac acc rest = some (acc, rest) := by
  cases rest with
  | nil => rfl
  | cons b t =>
    have hb : ¬ b = 0x2E := by rcases h with rfl | rfl | rfl <;> decide
    rw [lexFrac, if_neg hb]
    exact lexExp_follow acc h

/-- The digits of a number and what follows them, for a text without a leading zero. -/
theorem lexInt_dec (n : Nat) {rest : Bytes} (acc : Bytes)
    (hr : ∀ b t, rest = b :: t → isDigit b = false) :
    lexInt acc (dec n ++ rest) = lexFrac (acc ++ dec n) rest := by
  rcases Nat.eq_zero_or_pos n with rfl | hn
  · rw [dec_zero]
    simp [lexInt]
  · obtain ⟨d, ds, hdec, hd, hd0⟩ := head_dec_ne_zero hn
    have hdig : ∀ b ∈ d :: ds, isDigit b = true := fun b hb => isDigit_of_mem_dec (hdec ▸ hb)
    obtain ⟨hdd, hds⟩ := List.forall_mem_cons.mp hdig
    rw [hdec, List.cons_append, lexInt, if_neg hd0, if_pos hdd, spanDigits_digits hds hr]

theorem numReads_dec (n : Nat) : NumReads go (dec n) := by
  have hhead : ∃ b t, dec n = b :: t ∧ isDigit b = true := by
    cases hdec : dec n with
    | nil => exact absurd hdec (dec_ne_nil n)
    | cons b t => exact ⟨b, t, rfl, isDigit_of_mem_dec (hdec ▸ List.mem_cons_self)⟩
  obtain ⟨b, t, hdec, hb⟩ := hhead
  refine ⟨⟨b, t, hdec, .inr hb⟩, fun rest hf => ?_⟩
  have hne : ¬ b = 0x2D := by
    rintro rfl
    exact absurd hb (by decide)
  show lexNumber (dec n ++ rest) = some (dec n, rest)
  rw [hdec, List.cons_append, lexNumber, if_neg hne, ← List.cons_append, ← hdec,
    lexInt_dec n [] (follow_not_digit hf), List.nil_append, lexFrac_follow _ hf]

theorem numReads_decInt (z : Int) : NumReads go (decInt z) := by
  unfold decInt
  split
  · refine ⟨⟨0x2D, _, rfl, .inl rfl⟩, fun rest hf => ?_⟩
    show lexNumber (0x2D :: (dec z.natAbs ++ rest)) = _
    rw [lexNumber, if_pos rfl, lexInt_dec _ _ (follow_not_digit hf), lexFrac_follow _ hf]
    rfl
  · exact numReads_dec _

theorem parseUint_dec {bits n : Nat} (h : n < 2 ^ bits) : parseUint bits (dec n) = some n := by
  have hall : (dec n).all isDigit = true := List.all_eq_true.mpr fun b hb => isDigit_of_mem_dec hb
  rw [parseUint, decVal_dec, if_pos ⟨dec_ne_nil n, hall, h⟩]

theorem parseInt_decInt {bits : Nat} {z : Int} (h : -(2 ^ (bits - 1) : Int) ≤ z)
    (h' : z < 2 ^ (bits - 1)) : parseInt bits (decInt z) = some z := by
  have hall : ∀ n, (dec n).all isDigit = true := fun n =>
    List.all_eq_true.mpr fun b hb => isDigit_of_mem_dec hb
  unfold decInt
  split
  · next hz =>
    have hv : -((z.natAbs : Nat) : Int) = z := by omega
    simp only [parseInt, if_true, decVal_dec, hv]
    rw [if_pos ⟨dec_ne_nil _, hall _, h, h'⟩]
  · next hz =>
    have hv : ((z.natAbs : Nat) : Int) = z := by omega
    cases hdec : dec z.natAbs with
    | nil => exact absurd hdec (dec_ne_nil _)
    | cons b t =>
      have hb : isDigit b = true := isDigit_of_mem_dec (hdec ▸ List.mem_cons_self)
      have h1 : ¬ b = 0x2D := by rintro rfl; exact absurd hb (by decide)
      have h2 : ¬ b = 0x2B := by rintro rfl; exact absurd hb (by decide)
      simp only [parseInt, if_neg h1, if_neg h2]
      rw [← hdec, decVal_dec]
      simp only [Bool.false_eq_true, if_false, hv]
      rw [if_pos ⟨dec_ne_nil _, hall _, h, h'⟩]

theorem parseCount_decInt (z : Int) : parseCount (decInt z) = some z := by
  have hall : ∀ n, (dec n).all isDigit = true := fun n =>
    List.all_eq_true.mpr fun b hb => isDigit_of_mem_dec hb
  unfold decInt
  split
  · next hz =>
    rw [parseCount, if_pos rfl, if_pos ⟨dec_ne_nil _, hall _⟩, decVal_dec]
    exact congrArg some (by omega)
  · next hz =>
    cases hdec : dec z.natAbs with
    | nil => exact absurd hdec (dec_ne_nil _)
    | cons b t =>
      have hb : ¬ b = 0x2D := by
        rintro rfl
        exact absurd (isDigit_of_mem_dec (hdec ▸ List.mem_cons_self)) (by decide)
      rw [parseCount, if_neg hb, ← hdec, if_pos (hall _), decVal_dec]
      exact congrArg some (by omega)

/-! ## Strings read back -/

theorem unquote_plain {b : UInt8} (h : b ≠ 0x5C) (s : Bytes) :
    unquote (b :: s) =
      if b < 0x20 then none
      else if b < 0x80 then (unquote s).map (b :: ·)
      else
        match runeTail b s with
        | some n => (unquoteFrom n s).map (b :: ·)
        | none => (unquote s).map (replacement ++ ·) := by
  delta unquote unquoteFrom
  exact if_neg h

theorem unquote_ascii {b : UInt8} (h1 : b ≠ 0x5C) (h2 : ¬ b < 0x20) (h3 : b < 0x80) (s : Bytes) :
    unquote (b :: s) = (unquote s).map (b :: ·) := by
  rw [unquote_plain h1, if_neg h2, if_pos h3]

theorem unquote_simple {c x : UInt8} (hc : c ≠ 0x75) (hx : simpleEscape c = some x) (t : Bytes) :
    unquote (0x5C :: c :: t) = (unquote t).map (x :: ·) := by
  delta unquote unquoteFrom
  refine (if_neg hc).trans ?_
  rw [hx]

theorem unquote_u {h1 h2 h3 h4 : UInt8} {r : Nat} (hr : getu4 h1 h2 h3 h4 = some r)
    (hs : r < 0xD800 ∨ 0xE000 ≤ r) (u : Bytes) :
    unquote (0x5C :: 0x75 :: h1 :: h2 :: h3 :: h4 :: u) =
      (unquote u).map (utf8Encode r ++ ·) := by
  have hns : ¬ (0xD800 ≤ r ∧ r < 0xE000) := by omega
  delta unquote unquoteFrom
  refine (if_pos rfl).trans ((if_pos rfl).trans ?_)
  dsimp only
  rw [hr]
  exact if_neg hns

theorem unquoteFrom_append (t s : Bytes) :
    unquoteFrom t.length (t ++ s) = (unquote s).map (t ++ ·) := by
  induction t with
  | nil => cases h : unquote s <;> simp_all [unquote]
  | cons b t ih =>
    show (unquoteFrom t.length (t ++ s)).map (b :: ·) = _
    rw [ih, Option.map_map]
    rfl

theorem high_ne {b : UInt8} (h : ¬ b < 0x80) : b ≠ 0x5C ∧ b ≠ 0x22 ∧ ¬ b < 0x20 := by
  refine ⟨?_, ?_, fun hc => h (UInt8.lt_trans hc (by decide))⟩ <;> rintro rfl <;>
    exact h (by decide)

theorem unquote_high {b : UInt8} (hb : ¬ b < 0x80) (s : Bytes) :
    unquote (b :: s) = match runeTail b s with
      | some n => (unquoteFrom n s).map (b :: ·)
      | none => (unquote s).map (replacement ++ ·) := by
  rw [unquote_plain (high_ne hb).1, if_neg (high_ne hb).2.2, if_neg hb]

theorem unquote_rune {b : UInt8} {t : Bytes} (h : Completes b t) (s : Bytes) :
    unquote (b :: (t ++ s)) = (unquote s).map fun u => b :: (t ++ u) := by
  rw [unquote_high h.high, h.rune]
  simp only [unquoteFrom_append, Option.map_map]
  rfl

theorem unquote_bad {b : UInt8} {s : Bytes} (hb : ¬ b < 0x80) (h : runeTail b s = none) :
    unquote (b :: s) = (unquote s).map (replacement ++ ·) := by
  rw [unquote_high hb, h]

/-- `t` is one way to write the ASCII byte `b` inside quotes. -/
def writes (t : Bytes) (b : UInt8) : Bool :=
  match t with
  | [x] => x == b && x != 0x5C && x != 0x22 && !(x < 0x20) && x < 0x80
  | [x, c] => x == 0x5C && c != 0x75 && simpleEscape c == some b
  | [x, u, h1, h2, h3, h4] =>
    x == 0x5C && u == 0x75 && getu4 h1 h2 h3 h4 == some b.toNat && b < 0x80 &&
      [h1, h2, h3, h4].all fun h => h != 0x22 && h != 0x5C
  | _ => false

theorem writes_spec {t : Bytes} {b : UInt8} (h : writes t b = true) :
    Quotable t ∧ ∀ s, unquote (t ++ s) = (unquote s).map (b :: ·) := by
  unfold writes at h
  split at h
  · next x =>
    simp only [Bool.and_eq_true, beq_iff_eq, bne_iff_ne, Bool.not_eq_true', decide_eq_true_eq,
      decide_eq_false_iff_not] at h
    obtain ⟨⟨⟨⟨rfl, h1⟩, h2⟩, h3⟩, h4⟩ := h
    exact ⟨.plain h2 h1 .nil, fun s => unquote_ascii h1 h3 h4 s⟩
  · next x c =>
    simp only [Bool.and_eq_true, beq_iff_eq, bne_iff_ne] at h
    obtain ⟨⟨rfl, hc⟩, hx⟩ := h
    exact ⟨.escape .nil, fun s => unquote_simple hc hx s⟩
  · next x u h1 h2 h3 h4 =>
    simp only [Bool.and_eq_true, beq_iff_eq, decide_eq_true_eq, List.all_cons, List.all_nil,
      bne_iff_ne, and_true] at h
    obtain ⟨⟨⟨⟨rfl, rfl⟩, hr⟩, hb⟩, q1, q2, q3, q4⟩ := h
    refine ⟨.escape (.plain q1.1 q1.2 (.plain q2.1 q2.2 (.plain q3.1 q3.2 (.plain q4.1 q4.2 .nil)))),
      fun s => ?_⟩
    have hlt : b.toNat < 0x80 := UInt8.lt_iff_toNat_lt.mp hb
    have := unquote_u hr (by omega) s
    simpa [utf8Encode, hlt] using this
  · cases h

theorem writes_escapeAscii : ∀ n < 128, writes (escapeAscii (UInt8.ofNat n)) (UInt8.ofNat n) = true := by
  decide +kernel

theorem escapeAscii_spec {b : UInt8} (h : b < 0x80) :
    Quotable (escapeAscii b) ∧ ∀ s, unquote (escapeAscii b ++ s) = (unquote s).map (b :: ·) := by
  have hlt : b.toNat < 128 := UInt8.lt_iff_toNat_lt.mp h
  have := writes_escapeAscii b.toNat hlt
  rw [UInt8.ofNat_toNat] at this
  exact writes_spec this

theorem escape_ascii {b : UInt8} (hb : b < 0x80) (s : Bytes) :
    escape (b :: s) = escapeAscii b ++ escape s := if_pos hb

theorem escape_high {b : UInt8} (hb : ¬ b < 0x80) (s : Bytes) :
    escape (b :: s) = match runeTail b s with
      | none => ascii "\\ufffd" ++ escape s
      | some n =>
        match lineSeparator b s with
        | some d => ascii "\\u202" ++ hexDigit (d.toNat % 16) :: escapeFrom false 2 s
        | none => b :: escapeFrom true n s := if_neg hb

theorem escapeFrom_copy (t s : Bytes) : escapeFrom true t.length (t ++ s) = t ++ escape s := by
  induction t with
  | nil => cases s <;> rfl
  | cons b t ih =>
    show b :: escapeFrom true t.length (t ++ s) = _
    rw [ih]
    rfl

theorem escapeFrom_drop (t s : Bytes) : escapeFrom false t.length (t ++ s) = escape s := by
  induction t with
  | nil => cases s <;> rfl
  | cons b t ih => exact ih

/-- A character is either copied or written as `\u2028` or `\u2029`. -/
theorem escape_rune {b : UInt8} {t : Bytes} (h : Completes b t) (s : Bytes) :
    escape (b :: (t ++ s)) = b :: (t ++ escape s) ∨
    ∃ d, (d = 0xA8 ∨ d = 0xA9) ∧ b = 0xE2 ∧ t = [0x80, d] ∧
      escape (b :: (t ++ s)) = ascii "\\u202" ++ hexDigit (d.toNat % 16) :: escape s := by
  rw [escape_high h.high, h.rune]
  cases hsep : lineSeparator b (t ++ s) with
  | none => exact .inl (by simp only [escapeFrom_copy])
  | some d =>
    right
    unfold lineSeparator at hsep
    split at hsep
    · next hb =>
      subst hb
      -- a lead byte E2 takes exactly two more bytes
      have hlen : t.length = 2 := by
        have := h.rune s
        have hr : contRanges 0xE2 = some [(0x80, 0xBF), (0x80, 0xBF)] := rfl
        simp only [runeTail, hr] at this
        split at this
        · exact (Option.some.inj this).symm
        · cases this
      obtain ⟨c, e, rfl⟩ := List.length_eq_two.mp hlen
      simp only [List.cons_append, List.nil_append] at hsep
      split at hsep
      · next hce =>
        obtain ⟨rfl, hd⟩ := hce
        obtain rfl := Option.some.inj hsep
        exact ⟨e, hd, rfl, rfl, by rw [← escapeFrom_drop [0x80, e] s]; rfl⟩
      · cases hsep
    · cases hsep

theorem unquote_separator {d : UInt8} (h : d = 0xA8 ∨ d = 0xA9) (s : Bytes) :
    Quotable (ascii "\\u202" ++ [hexDigit (d.toNat % 16)]) ∧
    unquote (ascii "\\u202" ++ hexDigit (d.toNat % 16) :: s) =
      (unquote s).map fun u => 0xE2 :: ([0x80, d] ++ u) := by
  rcases h with rfl | rfl
  · exact ⟨.escape (.plain (by decide) (by decide) (.plain (by decide) (by decide)
      (.plain (by decide) (by decide) (.plain (by decide) (by decide) .nil)))),
      unquote_u (r := 0x2028) (by decide) (by decide) s⟩
  · exact ⟨.escape (.plain (by decide) (by decide) (.plain (by decide) (by decide)
      (.plain (by decide) (by decide) (.plain (by decide) (by decide) .nil)))),
      unquote_u (r := 0x2029) (by decide) (by decide) s⟩

theorem quotable_high {t : Bytes} (h : ∀ c ∈ t, ¬ c < 0x80) : Quotable t := by
  induction t with
  | nil => exact .nil
  | cons b t ih =>
    obtain ⟨hb, ht⟩ := List.forall_mem_cons.mp h
    exact .plain (high_ne hb).2.1 (high_ne hb).1 (ih ht)

theorem escape_bad {b : UInt8} {s : Bytes} (hb : ¬ b < 0x80) (h : runeTail b s = none) :
    escape (b :: s) = ascii "\\ufffd" ++ escape s := by
  rw [escape_high hb, h]

theorem escape_spec (s : Bytes) : Quotable (escape s) ∧ unquote (escape s) = some (sanitize s) := by
  induction s using utf8_induction with
  | nil => exact ⟨.nil, rfl⟩
  | ascii b s hb ih =>
    obtain ⟨hq, hu⟩ := escapeAscii_spec hb
    rw [escape_ascii hb, hu, ih.2, sanitize_ascii hb]
    exact ⟨hq.append ih.1, rfl⟩
  | rune b t s hc ih =>
    rw [sanitize_rune hc]
    rcases escape_rune hc s with he | ⟨d, hd, rfl, rfl, he⟩
    · rw [he, unquote_rune hc, ih.2]
      have hq : Quotable (b :: t) := quotable_high (List.forall_mem_cons.mpr ⟨hc.high, hc.bytes⟩)
      exact ⟨hq.append ih.1, rfl⟩
    · obtain ⟨hq, hu⟩ := unquote_separator hd (escape s)
      rw [he, hu, ih.2]
      have := hq.append ih.1
      rw [List.append_assoc] at this
      exact ⟨this, rfl⟩
  | bad b s hb ht ih =>
    have hq : Quotable (ascii "\\ufffd") := .escape (.plain (by decide) (by decide)
      (.plain (by decide) (by decide) (.plain (by decide) (by decide)
      (.plain (by decide) (by decide) .nil))))
    have hr : getu4 0x66 0x66 0x66 0x64 = some 0xFFFD := by decide
    have hu := unquote_u hr (by decide) (escape s)
    rw [escape_bad hb ht, sanitize_bad hb ht]
    refine ⟨hq.append ih.1, ?_⟩
    rw [ih.2] at hu
    exact hu

/-- **A written string is read as its sanitized self.** -/
theorem strReads_escape (s : Bytes) : StrReads go escape s (sanitize s) := fun rest =>
  (escape_spec s).1.lex (escape_spec s).2 rest

theorem escapeAscii_visible : ∀ n < 128,
    (escapeAscii (UInt8.ofNat n)).all (fun c => decide (¬ c < 0x20)) = true := by
  decide +kernel

/-- A written string has no control bytes. -/
theorem not_mem_escape {x : UInt8} (hx : x < 0x20) (s : Bytes) : x ∉ escape s := by
  have high : ∀ {c : UInt8}, ¬ c < 0x80 → x ≠ c := by
    rintro c hc rfl
    exact (high_ne hc).2.2 hx
  have piece : ∀ {t : Bytes}, t.all (fun c => decide (¬ c < 0x20)) = true → x ∉ t :=
    fun ht hm => of_decide_eq_true (List.all_eq_true.mp ht x hm) hx
  induction s using utf8_induction with
  | nil => exact List.not_mem_nil
  | ascii b s hb ih =>
    have hvis := escapeAscii_visible b.toNat (UInt8.lt_iff_toNat_lt.mp hb)
    rw [UInt8.ofNat_toNat] at hvis
    rw [escape_ascii hb, List.mem_append, not_or]
    exact ⟨piece hvis, ih⟩
  | rune b t s hc ih =>
    rcases escape_rune hc s with he | ⟨d, hd, rfl, rfl, he⟩
    · rw [he, List.mem_cons, List.mem_append, not_or, not_or]
      exact ⟨high hc.high, fun hm => high (hc.bytes x hm) rfl, ih⟩
    · rw [he, List.mem_append, List.mem_cons, not_or, not_or]
      refine ⟨piece (by decide), ?_, ih⟩
      rintro rfl
      rcases hd with rfl | rfl <;> exact absurd hx (by decide)
  | bad b s hb ht ih =>
    rw [escape_bad hb ht, List.mem_append, not_or]
    exact ⟨piece (by decide), ih⟩

/-! ## Strings that were read -/

theorem hexVal_lt {b : UInt8} {n : Nat} (h : hexVal b = some n) : n < 16 := by
  have hall : ∀ m < 256, (hexVal (UInt8.ofNat m)).all (· < 16) = true := by decide +kernel
  have := hall b.toNat b.toNat_lt
  rw [UInt8.ofNat_toNat, h] at this
  simpa using this

theorem getu4_lt {a b c d : UInt8} {n : Nat} (h : getu4 a b c d = some n) : n < 0x10000 := by
  unfold getu4 at h
  split at h
  next ha hb hc hd =>
    cases h
    have := hexVal_lt ha
    have := hexVal_lt hb
    have := hexVal_lt hc
    have := hexVal_lt hd
    omega
  · cases h

theorem decodeSurrogates_range {r1 r2 cp : Nat} (h : decodeSurrogates r1 r2 = some cp) :
    0xE000 ≤ cp ∧ cp < 0x110000 := by
  unfold decodeSurrogates at h
  split at h
  · cases h
    omega
  · cases h

theorem simpleEscape_ascii {c x : UInt8} (h : simpleEscape c = some x) : x < 0x80 := by
  have hall : ∀ m < 256, (simpleEscape (UInt8.ofNat m)).all (· < 0x80) = true := by decide +kernel
  have := hall c.toNat c.toNat_lt
  rw [UInt8.ofNat_toNat, h] at this
  simpa using this

/-- **A string that was read is UTF-8.** -/
theorem unquote_valid {s t : Bytes} (h : unquote s = some t) : validUtf8 t = true := by
  induction hn : s.length using Nat.strong_induction_on generalizing s t with
  | _ n ih =>
    have after : ∀ {e u : Bytes}, Whole e → u.length < s.length →
        (unquote u).map (e ++ ·) = some t → validUtf8 t = true := by
      intro e u he hu hmap
      obtain ⟨t', ht', rfl⟩ := Option.map_eq_some_iff.mp hmap
      exact he.valid (ih u.length (hn ▸ hu) ht' rfl)
    cases s with
    | nil =>
      cases h
      rfl
    | cons b s =>
      by_cases hb : b = 0x5C
      · subst hb
        rw [unquote, unquoteFrom.eq_def] at h
        dsimp only at h
        rw [if_pos rfl] at h
        cases s with
        | nil => cases h
        | cons c s =>
          dsimp only at h
          split at h
          · -- `\u`
            split at h
            next h1 h2 h3 h4 u =>
              split at h
              · cases h
              next r hr =>
              split at h
              · split at h
                next b1 b2 k1 k2 k3 k4 v =>
                  split at h
                  · split at h
                    next cp hcp =>
                      have hrange := decodeSurrogates_range hcp
                      exact after (whole_utf8Encode (.inr hrange.1) hrange.2)
                        (by simp only [List.length_cons]; omega) h
                    · exact after whole_replacement (by simp only [List.length_cons]; omega) h
                  · exact after whole_replacement (by simp only [List.length_cons]; omega) h
                · exact after whole_replacement (by simp only [List.length_cons]; omega) h
              next hsur =>
                have hmax := getu4_lt hr
                exact after (whole_utf8Encode (by omega) (by omega))
                  (by simp only [List.length_cons]; omega) h
            · cases h
          · split at h
            · cases h
            next x hx =>
              exact after (whole_ascii (simpleEscape_ascii hx))
                (by simp only [List.length_cons]; omega) h
      rw [unquote_plain hb] at h
      split at h
      · cases h
      split at h
      next hlow => exact after (whole_ascii hlow) (by simp) h
      next hhigh =>
        cases htail : runeTail b s with
        | none =>
          rw [htail] at h
          exact after whole_replacement (by simp) h
        | some k =>
          obtain ⟨r, u, rfl, rfl, hc⟩ := runeTail_some htail
          rw [htail] at h
          dsimp only at h
          rw [unquoteFrom_append, Option.map_map] at h
          exact after hc.whole (by simp only [List.length_cons, List.length_append]; omega) h

/-! ## Whole texts -/

/-- A printed object is read back, with white space behind it. -/
theorem readValue_print {esc : Bytes → Bytes} {ms : List (Bytes × Json)} {j' : Json}
    (h : Reads go esc maxNestingDepth (.obj ms) j') {rest : Bytes} (hr : go.skipWs rest = []) :
    readValue (Json.print esc (.obj ms) ++ rest) = some j' := by
  have hws : go.skipWs (Json.print esc (.obj ms) ++ rest) = Json.print esc (.obj ms) ++ rest := by
    rw [Json.print, List.cons_append, skipWs_cons (by decide)]
  rw [readValue, hws, Dialect.parse_print h rest (.inl rfl)]
  simp only [if_pos hr]

/-- A proper cut of a printed object is no value. -/
theorem readValue_cut {esc : Bytes → Bytes} {ms : List (Bytes × Json)} {j' : Json}
    (h : Reads go esc maxNestingDepth (.obj ms) j') {u v : Bytes}
    (huv : u ++ v = Json.print esc (.obj ms)) (hv : v ≠ []) : readValue u = none := by
  have hws : go.skipWs u = u := by
    cases u with
    | nil => rfl
    | cons b u =>
      rw [Json.print, List.cons_append, List.cons.injEq] at huv
      rw [huv.1, skipWs_cons (by decide)]
  rw [readValue, hws, Dialect.parse_cut go_local h huv hv]

end FlowAlarm.GoJson
