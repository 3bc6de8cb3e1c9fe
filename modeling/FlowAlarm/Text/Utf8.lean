import FlowAlarm.Text.Bytes

/-!
# UTF-8

`utf8Encode` is the encoding of a code point. `runeTail` recognises one
encoded character at the front of a byte string, and `sanitize` replaces every
byte that belongs to none by U+FFFD. `utf8_induction` is the induction over a
byte string character by character. `trimSpace` removes Unicode white space at
both ends.
-/

namespace FlowAlarm.Text

/-- The UTF-8 encoding of a code point below 0x110000. -/
def utf8Encode (cp : Nat) : Bytes :=
  if cp < 0x80 then [UInt8.ofNat cp]
  else if cp < 0x800 then [UInt8.ofNat (0xC0 + cp / 64), UInt8.ofNat (0x80 + cp % 64)]
  else if cp < 0x10000 then
    [UInt8.ofNat (0xE0 + cp / 4096), UInt8.ofNat (0x80 + cp / 64 % 64),
      UInt8.ofNat (0x80 + cp % 64)]
  else
    [UInt8.ofNat (0xF0 + cp / 262144), UInt8.ofNat (0x80 + cp / 4096 % 64),
      UInt8.ofNat (0x80 + cp / 64 % 64), UInt8.ofNat (0x80 + cp % 64)]

/-- The encoding of U+FFFD. -/
def replacement : Bytes := [0xEF, 0xBF, 0xBD]

/-- The ranges of the bytes that follow a lead byte of a longer encoding. -/
def contRanges (b : UInt8) : Option (List (UInt8 × UInt8)) :=
  if 0xC2 ≤ b ∧ b ≤ 0xDF then some [(0x80, 0xBF)]
  else if b = 0xE0 then some [(0xA0, 0xBF), (0x80, 0xBF)]
  else if b = 0xED then some [(0x80, 0x9F), (0x80, 0xBF)]
  else if 0xE1 ≤ b ∧ b ≤ 0xEF then some [(0x80, 0xBF), (0x80, 0xBF)]
  else if b = 0xF0 then some [(0x90, 0xBF), (0x80, 0xBF), (0x80, 0xBF)]
  else if 0xF1 ≤ b ∧ b ≤ 0xF3 then some [(0x80, 0xBF), (0x80, 0xBF), (0x80, 0xBF)]
  else if b = 0xF4 then some [(0x80, 0x8F), (0x80, 0xBF), (0x80, 0xBF)]
  else none

def fits : List (UInt8 × UInt8) → Bytes → Bool
  | [], _ => true
  | _ :: _, [] => false
  | r :: rs, b :: s => r.1 ≤ b && b ≤ r.2 && fits rs s

/-- The number of bytes that complete the character led by `b`. -/
def runeTail (b : UInt8) (s : Bytes) : Option Nat :=
  match contRanges b with
  | none => none
  | some rs => if fits rs s then some rs.length else none

/-- `sanitize` with the first `k` bytes known to complete a character. -/
def sanitizeFrom : Nat → Bytes → Bytes
  | _, [] => []
  | k + 1, b :: s => b :: sanitizeFrom k s
  | 0, b :: s =>
    if b < 0x80 then b :: sanitizeFrom 0 s
    else
      match runeTail b s with
      | some n => b :: sanitizeFrom n s
      | none => replacement ++ sanitizeFrom 0 s

/-- Every byte outside a character replaced by U+FFFD. -/
def sanitize (s : Bytes) : Bytes := sanitizeFrom 0 s

/-- `validUtf8` with the first `k` bytes known to complete a character. -/
def validFrom : Nat → Bytes → Bool
  | _, [] => true
  | k + 1, _ :: s => validFrom k s
  | 0, b :: s =>
    if b < 0x80 then validFrom 0 s
    else
      match runeTail b s with
      | some n => validFrom n s
      | none => false

def validUtf8 (s : Bytes) : Bool := validFrom 0 s

/-! ## Characters -/

/-- `t` completes the character led by `b`. -/
structure Completes (b : UInt8) (t : Bytes) : Prop where
  high : ¬ b < 0x80
  rune : ∀ s, runeTail b (t ++ s) = some t.length
  bytes : ∀ c ∈ t, ¬ c < 0x80

theorem fits_split {rs : List (UInt8 × UInt8)} {s : Bytes} (h : fits rs s = true) :
    ∃ t u, s = t ++ u ∧ t.length = rs.length ∧ ∀ v, fits rs (t ++ v) = true := by
  induction rs generalizing s with
  | nil => exact ⟨[], s, rfl, rfl, fun _ => rfl⟩
  | cons r rs ih =>
    cases s with
    | nil => cases h
    | cons b s =>
      simp only [fits, Bool.and_eq_true] at h
      obtain ⟨t, u, rfl, hlen, hfits⟩ := ih h.2
      refine ⟨b :: t, u, rfl, by simp [hlen], fun v => ?_⟩
      simp only [List.cons_append, fits, h.1, hfits v, Bool.and_self]

theorem fits_high {rs : List (UInt8 × UInt8)} (hr : ∀ r ∈ rs, (0x80 : UInt8) ≤ r.1) {t : Bytes}
    (hlen : t.length = rs.length) (h : fits rs t = true) : ∀ c ∈ t, ¬ c < 0x80 := by
  induction rs generalizing t with
  | nil =>
    rw [List.length_eq_zero_iff.mp hlen]
    simp
  | cons r rs ih =>
    cases t with
    | nil => cases h
    | cons b t =>
      obtain ⟨hr0, hrs⟩ := List.forall_mem_cons.mp hr
      simp only [fits, Bool.and_eq_true, decide_eq_true_eq] at h
      exact List.forall_mem_cons.mpr ⟨UInt8.not_lt.mpr (UInt8.le_trans hr0 h.1.1), ih hrs (by simpa using hlen) h.2⟩

/-- Continuation bytes are never ASCII, and a lead byte is not either. -/
theorem contRanges_high : ∀ n < 256, ∀ rs, contRanges (UInt8.ofNat n) = some rs →
    ¬ UInt8.ofNat n < 0x80 ∧ ∀ r ∈ rs, (0x80 : UInt8) ≤ r.1 := by
  have key : ∀ n < 256, (contRanges (UInt8.ofNat n)).all fun rs =>
      decide (¬ UInt8.ofNat n < 0x80) && rs.all fun r => decide ((0x80 : UInt8) ≤ r.1) := by
    decide +kernel
  intro n hn rs hrs
  have := key n hn
  simpa [hrs] using this

theorem runeTail_some {b : UInt8} {s : Bytes} {n : Nat} (h : runeTail b s = some n) :
    ∃ t u, s = t ++ u ∧ t.length = n ∧ Completes b t := by
  unfold runeTail at h
  split at h
  · cases h
  · next rs hrs =>
    split at h
    · next hf =>
      obtain rfl := Option.some.inj h
      obtain ⟨t, u, rfl, hlen, hfits⟩ := fits_split hf
      have hb := contRanges_high b.toNat b.toNat_lt rs (by simpa using hrs)
      rw [UInt8.ofNat_toNat] at hb
      refine ⟨t, u, rfl, hlen, hb.1, fun v => ?_, ?_⟩
      · simp only [runeTail, hrs, hfits v, if_true, hlen]
      · exact fits_high hb.2 hlen (by simpa using hfits [])
    · cases h

/-- **Induction over the characters of a byte string.** -/
theorem utf8_induction {P : Bytes → Prop} (nil : P [])
    (ascii : ∀ b s, b < 0x80 → P s → P (b :: s))
    (rune : ∀ b t s, Completes b t → P s → P (b :: (t ++ s)))
    (bad : ∀ b s, ¬ b < 0x80 → runeTail b s = none → P s → P (b :: s)) (s : Bytes) : P s := by
  induction hn : s.length using Nat.strong_induction_on generalizing s with
  | _ n ih =>
    cases s with
    | nil => exact nil
    | cons b s =>
      have hs : ∀ u : Bytes, u.length ≤ s.length → P u := fun u hu =>
        ih u.length (by rw [← hn, List.length_cons]; omega) u rfl
      by_cases hb : b < 0x80
      · exact ascii b s hb (hs s le_rfl)
      · cases ht : runeTail b s with
        | none => exact bad b s hb ht (hs s le_rfl)
        | some n =>
          obtain ⟨t, u, rfl, -, hc⟩ := runeTail_some ht
          exact rune b t u hc (hs u (by simp))

/-! ## Sanitizing -/

theorem sanitizeFrom_append (t s : Bytes) : sanitizeFrom t.length (t ++ s) = t ++ sanitize s := by
  induction t with
  | nil => cases s <;> rfl
  | cons b t ih => rw [List.length_cons, List.cons_append, sanitizeFrom, ih, List.cons_append]

theorem validFrom_append (t s : Bytes) : validFrom t.length (t ++ s) = validUtf8 s := by
  induction t with
  | nil => cases s <;> rfl
  | cons b t ih => rw [List.length_cons, List.cons_append, validFrom, ih]

theorem sanitize_ascii {b : UInt8} (h : b < 0x80) (s : Bytes) :
    sanitize (b :: s) = b :: sanitize s := by
  rw [sanitize, sanitizeFrom, if_pos h]
  rfl

theorem sanitize_rune {b : UInt8} {t : Bytes} (h : Completes b t) (s : Bytes) :
    sanitize (b :: (t ++ s)) = b :: (t ++ sanitize s) := by
  rw [sanitize, sanitizeFrom, if_neg h.high, h.rune s]
  simp only [sanitizeFrom_append]

theorem sanitize_bad {b : UInt8} {s : Bytes} (hb : ¬ b < 0x80) (h : runeTail b s = none) :
    sanitize (b :: s) = replacement ++ sanitize s := by
  rw [sanitize, sanitizeFrom, if_neg hb, h]
  rfl

theorem completes_replacement : Completes 0xEF [0xBF, 0xBD] where
  high := by decide
  rune s := rfl
  bytes := List.forall_mem_cons.mpr ⟨by decide, List.forall_mem_cons.mpr ⟨by decide, by simp⟩⟩

theorem validUtf8_sanitize (s : Bytes) : validUtf8 (sanitize s) = true := by
  induction s using utf8_induction with
  | nil => rfl
  | ascii b s hb ih =>
    rw [sanitize_ascii hb, validUtf8, validFrom, if_pos hb]
    exact ih
  | rune b t s hc ih =>
    rw [sanitize_rune hc, validUtf8, validFrom, if_neg hc.high, hc.rune]
    simp only [validFrom_append, ih]
  | bad b s hb ht ih =>
    rw [sanitize_bad hb ht]
    exact ih

theorem length_le_sanitize (s : Bytes) :
    s.length ≤ (sanitize s).length ∧ (validUtf8 s = false → s.length < (sanitize s).length) := by
  induction s using utf8_induction with
  | nil => exact ⟨le_rfl, by simp [validUtf8, validFrom]⟩
  | ascii b s hb ih =>
    rw [sanitize_ascii hb, validUtf8, validFrom, if_pos hb, List.length_cons, List.length_cons]
    exact ⟨by omega, fun hv => by have := ih.2 hv; omega⟩
  | rune b t s hc ih =>
    rw [sanitize_rune hc, validUtf8, validFrom, if_neg hc.high, hc.rune]
    simp only [validFrom_append, List.length_cons, List.length_append]
    exact ⟨by omega, fun hv => by have := ih.2 hv; omega⟩
  | bad b s hb ht ih =>
    rw [sanitize_bad hb ht, List.length_append, List.length_cons]
    have : replacement.length = 3 := rfl
    exact ⟨by omega, fun _ => by omega⟩

/-- **Sanitizing keeps exactly the valid strings.** -/
theorem sanitize_eq_self {s : Bytes} : sanitize s = s ↔ validUtf8 s = true := by
  constructor
  · intro h
    rw [← h]
    exact validUtf8_sanitize s
  · intro h
    induction s using utf8_induction with
    | nil => rfl
    | ascii b s hb ih =>
      rw [validUtf8, validFrom, if_pos hb] at h
      rw [sanitize_ascii hb, ih h]
    | rune b t s hc ih =>
      rw [validUtf8, validFrom, if_neg hc.high, hc.rune] at h
      simp only [validFrom_append] at h
      rw [sanitize_rune hc, ih h]
    | bad b s hb ht ih =>
      rw [validUtf8, validFrom, if_neg hb, ht] at h
      cases h

theorem sanitize_sanitize (s : Bytes) : sanitize (sanitize s) = sanitize s :=
  sanitize_eq_self.mpr (validUtf8_sanitize s)

theorem sanitize_eq_nil {s : Bytes} : sanitize s = [] ↔ s = [] := by
  constructor
  · intro h
    have := (length_le_sanitize s).1
    rw [h] at this
    exact List.length_eq_zero_iff.mp (Nat.le_zero.mp this)
  · rintro rfl
    rfl

theorem validUtf8_ascii {s : Bytes} (h : ∀ b ∈ s, b < 0x80) : validUtf8 s = true := by
  induction s with
  | nil => rfl
  | cons b s ih =>
    obtain ⟨hb, hs⟩ := List.forall_mem_cons.mp h
    rw [validUtf8, validFrom, if_pos hb]
    exact ih hs

/-! ## Encoding -/

/-- Whole characters: in front of a text they do not change whether it is UTF-8. -/
def Whole (e : Bytes) : Prop := ∀ s, validUtf8 (e ++ s) = validUtf8 s

theorem whole_ascii {b : UInt8} (h : b < 0x80) : Whole [b] := fun s => by
  rw [List.singleton_append, validUtf8, validFrom, if_pos h]
  rfl

theorem Completes.whole {b : UInt8} {t : Bytes} (h : Completes b t) : Whole (b :: t) := fun s => by
  rw [List.cons_append, validUtf8, validFrom, if_neg h.high, h.rune s]
  exact validFrom_append t s

theorem whole_replacement : Whole replacement := completes_replacement.whole

theorem Whole.valid {e s : Bytes} (h : Whole e) (hs : validUtf8 s = true) :
    validUtf8 (e ++ s) = true := (h s).trans hs

/-- `b` leads a character whose second byte may be `c`, with `k` more bytes to come. -/
def leads (k : Nat) (b c : UInt8) : Bool :=
  match contRanges b with
  | some (r :: rs) => decide (r.1 ≤ c) && decide (c ≤ r.2) && rs == List.replicate k (0x80, 0xBF)
  | _ => false

theorem fits_tail {t : Bytes} (h : ∀ c ∈ t, 0x80 ≤ c ∧ c ≤ 0xBF) (s : Bytes) :
    fits (List.replicate t.length (0x80, 0xBF)) (t ++ s) = true := by
  induction t with
  | nil => cases s <;> rfl
  | cons c t ih =>
    obtain ⟨hc, ht⟩ := List.forall_mem_cons.mp h
    simp only [List.length_cons, List.replicate_succ, List.cons_append, fits, hc.1, hc.2, ih ht,
      decide_true, Bool.and_self]

theorem completes_of_leads {b c : UInt8} {t : Bytes} (h : leads t.length b c = true)
    (ht : ∀ c ∈ t, 0x80 ≤ c ∧ c ≤ 0xBF) : Completes b (c :: t) := by
  unfold leads at h
  split at h
  next r rs hrs =>
    simp only [Bool.and_eq_true, decide_eq_true_eq, beq_iff_eq] at h
    obtain ⟨⟨hc1, hc2⟩, rfl⟩ := h
    obtain ⟨hb, hr⟩ := contRanges_high b.toNat b.toNat_lt _ (by rw [UInt8.ofNat_toNat]; exact hrs)
    rw [UInt8.ofNat_toNat] at hb
    have hfits : ∀ s, fits (r :: List.replicate t.length (0x80, 0xBF)) (c :: t ++ s) = true := by
      intro s
      simp only [List.cons_append, fits, hc1, hc2, fits_tail ht, decide_true, Bool.and_self]
    refine ⟨hb, fun s => ?_, fits_high hr (by simp) ?_⟩
    · rw [runeTail, hrs]
      simp only [hfits s, if_true, List.length_cons, List.length_replicate]
    · have := hfits []
      rwa [List.append_nil] at this
  · cases h

theorem tail_le {k m : Nat} (h : k ≤ m) (hm : m < 64) :
    UInt8.ofNat (0x80 + k) ≤ UInt8.ofNat (0x80 + m) := by
  rw [UInt8.le_iff_toNat_le, UInt8.toNat_ofNat_of_lt' (by show _ < 256; omega),
    UInt8.toNat_ofNat_of_lt' (by show _ < 256; omega)]
  omega

theorem tailByte (n : Nat) (h : n < 64) : (0x80 : UInt8) ≤ UInt8.ofNat (0x80 + n) ∧
    UInt8.ofNat (0x80 + n) ≤ (0xBF : UInt8) :=
  ⟨tail_le (Nat.zero_le n) h, tail_le (k := n) (m := 63) (by omega) (by decide)⟩

/-- The ranges behind the lead bytes of two, three and four bytes. -/
theorem contRanges_lead :
    (∀ n < 32, 2 ≤ n → contRanges (UInt8.ofNat (0xC0 + n)) = some [(0x80, 0xBF)]) ∧
    (∀ n < 16, contRanges (UInt8.ofNat (0xE0 + n)) =
      some [(if n = 0 then 0xA0 else 0x80, if n = 13 then 0x9F else 0xBF), (0x80, 0xBF)]) ∧
    (∀ n < 5, contRanges (UInt8.ofNat (0xF0 + n)) =
      some [(if n = 0 then 0x90 else 0x80, if n = 4 then 0x8F else 0xBF), (0x80, 0xBF),
        (0x80, 0xBF)]) := by
  decide +kernel

theorem leads_of_contRanges {k : Nat} {b c lo hi : UInt8}
    (h : contRanges b = some ((lo, hi) :: List.replicate k (0x80, 0xBF))) (hlo : lo ≤ c)
    (hhi : c ≤ hi) : leads k b c = true := by
  simp only [leads, h, hlo, hhi, decide_true, Bool.and_self, BEq.rfl]

theorem leads_two (n : Nat) (h : n < 32) (h2 : 2 ≤ n) (m : Nat) (hm : m < 64) :
    leads 0 (UInt8.ofNat (0xC0 + n)) (UInt8.ofNat (0x80 + m)) = true :=
  leads_of_contRanges (contRanges_lead.1 n h h2) (tailByte m hm).1 (tailByte m hm).2

theorem leads_three (n : Nat) (h : n < 16) (m : Nat) (hm : m < 64) (h0 : n = 0 → 32 ≤ m)
    (h13 : n = 13 → m < 32) : leads 1 (UInt8.ofNat (0xE0 + n)) (UInt8.ofNat (0x80 + m)) = true := by
  refine leads_of_contRanges (contRanges_lead.2.1 n h) ?_ ?_
  · split
    · next hn => exact tail_le (h0 hn) hm
    · exact (tailByte m hm).1
  · split
    · next hn => exact tail_le (m := 31) (Nat.le_of_lt_succ (h13 hn)) (by decide)
    · exact (tailByte m hm).2

theorem leads_four (n : Nat) (h : n < 5) (m : Nat) (hm : m < 64) (h0 : n = 0 → 16 ≤ m)
    (h4 : n = 4 → m < 16) : leads 2 (UInt8.ofNat (0xF0 + n)) (UInt8.ofNat (0x80 + m)) = true := by
  refine leads_of_contRanges (contRanges_lead.2.2 n h) ?_ ?_
  · split
    · next hn => exact tail_le (h0 hn) hm
    · exact (tailByte m hm).1
  · split
    · next hn => exact tail_le (m := 15) (Nat.le_of_lt_succ (h4 hn)) (by decide)
    · exact (tailByte m hm).2

/-- **A code point that is no surrogate is encoded as a whole character.** -/
theorem whole_utf8Encode {cp : Nat} (hsur : cp < 0xD800 ∨ 0xE000 ≤ cp) (hmax : cp < 0x110000) :
    Whole (utf8Encode cp) := by
  have tail : ∀ n : Nat, (0x80 : UInt8) ≤ UInt8.ofNat (0x80 + n % 64) ∧
      UInt8.ofNat (0x80 + n % 64) ≤ (0xBF : UInt8) := fun n => tailByte _ (Nat.mod_lt _ (by decide))
  unfold utf8Encode
  split
  next h =>
    refine whole_ascii ?_
    rw [UInt8.lt_iff_toNat_lt, UInt8.toNat_ofNat_of_lt' (by show cp < 256; omega)]
    exact h
  split
  next h => exact (completes_of_leads (t := []) (leads_two _ (by omega) (by omega) _ (by omega))
    (by simp)).whole
  split
  next h =>
    refine (completes_of_leads (t := [_]) (leads_three _ (by omega) _ (by omega) (by omega)
      (by omega)) ?_).whole
    exact List.forall_mem_cons.mpr ⟨tail cp, by simp⟩
  next h =>
    refine (completes_of_leads (t := [_, _]) (leads_four _ (by omega) _ (by omega) (by omega)
      (by omega)) ?_).whole
    exact List.forall_mem_cons.mpr ⟨tail (cp / 64), List.forall_mem_cons.mpr ⟨tail cp, by simp⟩⟩

/-! ## White space -/

/-- The white space of `unicode.IsSpace`, by the length of its encoding. -/
def space1 (b : UInt8) : Bool := b == 0x20 || (0x09 ≤ b && b ≤ 0x0D)

def space2 (b c : UInt8) : Bool := b == 0xC2 && (c == 0x85 || c == 0xA0)

def space3 (b c d : UInt8) : Bool :=
  (b == 0xE1 && c == 0x9A && d == 0x80) ||
    (b == 0xE2 && c == 0x80 && ((0x80 ≤ d && d ≤ 0x8A) || d == 0xA8 || d == 0xA9 || d == 0xAF)) ||
    (b == 0xE2 && c == 0x81 && d == 0x9F) || (b == 0xE3 && c == 0x80 && d == 0x80)

/-- The text behind its leading white space. -/
def trimFront (two : UInt8 → UInt8 → Bool) (three : UInt8 → UInt8 → UInt8 → Bool) : Bytes → Bytes
  | [] => []
  | b :: s =>
    if space1 b then trimFront two three s
    else
      match s with
      | [] => [b]
      | c :: t =>
        if two b c then trimFront two three t
        else
          match t with
          | [] => [b, c]
          | d :: u => if three b c d then trimFront two three u else b :: c :: d :: u

/-- `TrimSpace`. -/
def trimSpace (s : Bytes) : Bytes :=
  (trimFront (fun c b => space2 b c) (fun d c b => space3 b c d)
    (trimFront space2 space3 s).reverse).reverse

theorem trimFront_suffix (two : UInt8 → UInt8 → Bool) (three : UInt8 → UInt8 → UInt8 → Bool)
    (s : Bytes) : trimFront two three s <:+ s := by
  fun_induction trimFront two three s with
  | case1 => exact List.suffix_rfl
  | case2 _ _ _ ih => exact ih.trans (List.suffix_cons _ _)
  | case3 => exact List.suffix_rfl
  | case4 _ _ _ _ _ ih => exact ih.trans ((List.suffix_cons _ _).trans (List.suffix_cons _ _))
  | case5 => exact List.suffix_rfl
  | case6 _ _ _ _ _ _ _ ih =>
    exact ih.trans ((List.suffix_cons _ _).trans
      ((List.suffix_cons _ _).trans (List.suffix_cons _ _)))
  | case7 => exact List.suffix_rfl

/-- A byte that starts no white space is where trimming stops. -/
theorem trimFront_visible {two : UInt8 → UInt8 → Bool} {three : UInt8 → UInt8 → UInt8 → Bool}
    {b : UInt8} (h1 : space1 b = false) (h2 : ∀ c, two b c = false) (h3 : ∀ c d, three b c d = false)
    (s : Bytes) : trimFront two three (b :: s) = b :: s := by
  cases s with
  | nil => simp [trimFront, h1]
  | cons c t =>
    cases t with
    | nil => simp [trimFront, h1, h2]
    | cons d u => simp [trimFront, h1, h2, h3]

theorem trimFront_brace (s : Bytes) : trimFront space2 space3 (0x7B :: s) = 0x7B :: s :=
  trimFront_visible rfl (fun _ => rfl) (fun _ _ => rfl) s

/-- What is trimmed off an object's text is at its end. -/
theorem trimSpace_prefix (s : Bytes) : trimSpace (0x7B :: s) <+: 0x7B :: s := by
  have := trimFront_suffix (fun c b => space2 b c) (fun d c b => space3 b c d) (0x7B :: s).reverse
  rw [trimSpace, trimFront_brace]
  simpa using List.reverse_prefix.mpr this

theorem trimBack_brace (s : Bytes) : trimFront (fun c b => space2 b c) (fun d c b => space3 b c d)
    (0x7D :: s) = 0x7D :: s := by
  refine trimFront_visible rfl (fun c => ?_) (fun c d => ?_) s
  · simp [space2]
  · simp [space3]

/-- The newline behind an object is trimmed off, and nothing else. -/
theorem trimSpace_line (s : Bytes) :
    trimSpace (0x7B :: (s ++ [0x7D]) ++ [0x0A]) = 0x7B :: (s ++ [0x7D]) := by
  have hstep : ∀ t : Bytes, trimFront (fun c b => space2 b c) (fun d c b => space3 b c d)
      (0x0A :: t) = trimFront (fun c b => space2 b c) (fun d c b => space3 b c d) t := by
    intro t
    rw [trimFront.eq_def]
    simp [space1]
  rw [trimSpace, List.cons_append, trimFront_brace]
  simp [hstep, trimBack_brace]

theorem trimSpace_object (s : Bytes) : trimSpace (0x7B :: (s ++ [0x7D])) = 0x7B :: (s ++ [0x7D]) := by
  rw [trimSpace, trimFront_brace]
  simp [trimBack_brace]

end FlowAlarm.Text
