import Mathlib.Data.Nat.Digits.Defs
import Mathlib.Data.Nat.Digits.Lemmas

/-!
# Bytes and decimal text

Text is a list of bytes: files, sockets and C strings are cut at arbitrary
bytes, so nothing here assumes a character encoding. `dec n` is the decimal
text of a natural number and `decVal` reads it back.
-/

namespace FlowAlarm.Text

abbrev Bytes := List UInt8

/-- The bytes of an ASCII literal. -/
def ascii (s : String) : Bytes := s.toList.map fun c => UInt8.ofNat c.toNat

/-- The first delimiter splits a text in one way only. -/
theorem append_delim_inj {d : UInt8} {a b a' b' : Bytes} (ha : d ∉ a) (ha' : d ∉ a')
    (h : a ++ d :: b = a' ++ d :: b') : a = a' ∧ b = b' := by
  induction a generalizing a' with
  | nil =>
    cases a' with
    | nil => simpa using h
    | cons x a' =>
      simp only [List.nil_append, List.cons_append, List.cons.injEq] at h
      exact absurd (h.1 ▸ List.mem_cons_self) ha'
  | cons x a ih =>
    cases a' with
    | nil =>
      simp only [List.nil_append, List.cons_append, List.cons.injEq] at h
      exact absurd (h.1 ▸ List.mem_cons_self) ha
    | cons y a' =>
      simp only [List.cons_append, List.cons.injEq] at h
      obtain ⟨rfl, h⟩ := h
      obtain ⟨rfl, rfl⟩ := ih (fun hm => ha (List.mem_cons_of_mem _ hm))
        (fun hm => ha' (List.mem_cons_of_mem _ hm)) h
      exact ⟨rfl, rfl⟩

def isDigit (b : UInt8) : Bool := 0x30 ≤ b && b ≤ 0x39

/-- The bytes C's `isspace` accepts. -/
def isCSpace (b : UInt8) : Bool := b == 0x20 || (0x09 ≤ b && b ≤ 0x0D)

def digit (n : Nat) : UInt8 := UInt8.ofNat (0x30 + n)

def digitVal (b : UInt8) : Nat := b.toNat - 0x30

/-- The decimal text of `n`, most significant digit first. -/
def dec (n : Nat) : Bytes :=
  if n = 0 then [0x30] else ((Nat.digits 10 n).map digit).reverse

/-- The value of a decimal digit string. -/
def decVal (s : Bytes) : Nat := Nat.ofDigits 10 (s.reverse.map digitVal)

/-- Decimal text of an integer, with a leading minus sign when negative. -/
def decInt (z : Int) : Bytes :=
  if z < 0 then 0x2D :: dec z.natAbs else dec z.natAbs

theorem digit_toNat {n : Nat} (h : n < 10) : (digit n).toNat = 0x30 + n := by
  simp only [digit, UInt8.toNat_ofNat']
  omega

theorem isDigit_iff {b : UInt8} : isDigit b = true ↔ 0x30 ≤ b.toNat ∧ b.toNat ≤ 0x39 := by
  simp only [isDigit, Bool.and_eq_true, decide_eq_true_eq, UInt8.le_iff_toNat_le]
  exact Iff.rfl

theorem isDigit_digit {n : Nat} (h : n < 10) : isDigit (digit n) = true := by
  rw [isDigit_iff, digit_toNat h]
  omega

theorem digitVal_digit {n : Nat} (h : n < 10) : digitVal (digit n) = n := by
  simp only [digitVal, digit_toNat h]
  omega

theorem dec_zero : dec 0 = [0x30] := rfl

theorem dec_of_pos {n : Nat} (h : 0 < n) : dec n = ((Nat.digits 10 n).map digit).reverse := by
  rw [dec, if_neg (by omega)]

theorem dec_ne_nil (n : Nat) : dec n ≠ [] := by
  rcases Nat.eq_zero_or_pos n with rfl | h
  · decide
  · rw [dec_of_pos h]
    have hne : Nat.digits 10 n ≠ [] := Nat.digits_ne_nil_iff_ne_zero.mpr (by omega)
    simp [hne]

theorem isDigit_of_mem_dec {n : Nat} {b : UInt8} (h : b ∈ dec n) : isDigit b = true := by
  rcases Nat.eq_zero_or_pos n with rfl | hn
  · rw [dec_zero, List.mem_singleton] at h
    subst h; decide
  · rw [dec_of_pos hn, List.mem_reverse, List.mem_map] at h
    obtain ⟨d, hd, rfl⟩ := h
    exact isDigit_digit (Nat.digits_lt_base (by omega) hd)

@[simp] theorem decVal_dec (n : Nat) : decVal (dec n) = n := by
  rcases Nat.eq_zero_or_pos n with rfl | hn
  · decide
  · have hid : (Nat.digits 10 n).map (digitVal ∘ digit) = Nat.digits 10 n := by
      conv_rhs => rw [← List.map_id (Nat.digits 10 n)]
      apply List.map_congr_left
      intro d hd
      exact digitVal_digit (Nat.digits_lt_base (by omega) hd)
    rw [decVal, dec_of_pos hn, List.reverse_reverse, List.map_map, hid, Nat.ofDigits_digits]

theorem dec_injective : Function.Injective dec := fun a b h => by
  rw [← decVal_dec a, h, decVal_dec]

/-- A multi-digit decimal text does not start with a zero. -/
theorem head_dec_ne_zero {n : Nat} (h : 0 < n) :
    ∃ b t, dec n = b :: t ∧ isDigit b = true ∧ b ≠ 0x30 := by
  have hne : Nat.digits 10 n ≠ [] := Nat.digits_ne_nil_iff_ne_zero.mpr (by omega)
  have hlast : (Nat.digits 10 n).getLast hne ≠ 0 := Nat.getLast_digit_ne_zero 10 (by omega)
  have hlt : (Nat.digits 10 n).getLast hne < 10 :=
    Nat.digits_lt_base (by omega) (List.getLast_mem hne)
  refine ⟨digit ((Nat.digits 10 n).getLast hne), (((Nat.digits 10 n).dropLast).map digit).reverse,
    ?_, isDigit_digit hlt, ?_⟩
  · rw [dec_of_pos h]
    conv_lhs => rw [← List.dropLast_append_getLast hne]
    simp
  · intro he
    have := congrArg UInt8.toNat he
    rw [digit_toNat hlt] at this
    have h30 : (0x30 : UInt8).toNat = 0x30 := rfl
    omega

theorem length_dec {n : Nat} (h : 0 < n) : (dec n).length = Nat.log 10 n + 1 := by
  rw [dec_of_pos h, List.length_reverse, List.length_map, Nat.length_digits 10 n (by omega) (by omega)]

/-- Multiplying by a power of ten appends zeros. -/
theorem dec_mul_pow {n : Nat} (h : 0 < n) (k : Nat) :
    dec (n * 10 ^ k) = dec n ++ List.replicate k 0x30 := by
  have hp : 0 < n * 10 ^ k := Nat.mul_pos h (Nat.pow_pos (by omega))
  rw [dec_of_pos h, dec_of_pos hp, Nat.mul_comm, Nat.digits_base_pow_mul (by omega) h]
  simp [digit]

/-! ## Hexadecimal text -/

def hexDigit (n : Nat) : UInt8 := if n < 10 then UInt8.ofNat (0x30 + n) else UInt8.ofNat (0x57 + n)

def hexDigitVal (b : UInt8) : Nat := if b ≤ 0x39 then b.toNat - 0x30 else b.toNat - 0x57

/-- `%0wx`: lower-case hexadecimal, zero-padded to at least `w` digits. -/
def hexPad (w n : Nat) : Bytes :=
  let ds := (Nat.digits 16 n).map hexDigit
  (ds ++ List.replicate (w - ds.length) 0x30).reverse

theorem hexDigitVal_hexDigit : ∀ n < 16, hexDigitVal (hexDigit n) = n := by decide

theorem hexDigit_ne_dash : ∀ n < 16, hexDigit n ≠ 0x2D ∧ hexDigit n ≠ 0 := by decide

theorem mem_hexPad {w n : Nat} {b : UInt8} (h : b ∈ hexPad w n) : b ≠ 0x2D ∧ b ≠ 0 := by
  simp only [hexPad, List.mem_reverse, List.mem_append, List.mem_map, List.mem_replicate] at h
  rcases h with ⟨d, hd, rfl⟩ | ⟨-, rfl⟩
  · exact hexDigit_ne_dash d (Nat.digits_lt_base (by omega) hd)
  · decide

theorem hexPad_injective (w : Nat) : Function.Injective (hexPad w) := by
  have hval : ∀ n, Nat.ofDigits 16 ((hexPad w n).reverse.map hexDigitVal) = n := by
    intro n
    have hid : (Nat.digits 16 n).map (hexDigitVal ∘ hexDigit) = Nat.digits 16 n := by
      conv_rhs => rw [← List.map_id (Nat.digits 16 n)]
      apply List.map_congr_left
      intro d hd
      exact hexDigitVal_hexDigit d (Nat.digits_lt_base (by omega) hd)
    have hz : hexDigitVal 0x30 = 0 := by decide
    simp only [hexPad, List.reverse_reverse, List.map_append, List.map_map, hid,
      List.map_replicate, hz, List.length_map]
    rw [Nat.ofDigits_append_replicate_zero, Nat.ofDigits_digits]
  intro a b h
  rw [← hval a, h, hval]

theorem length_hexPad {w n : Nat} (h : n < 16 ^ w) : (hexPad w n).length = w := by
  have hle : (Nat.digits 16 n).length ≤ w := Nat.digits_length_le_iff (by omega) n |>.mpr h
  simp only [hexPad, List.length_reverse, List.length_append, List.length_map,
    List.length_replicate]
  omega

/-! ## C strings -/

/-- The content of a C character array up to its terminator. An array without a terminator is
the whole array, so a content that fills its array is unterminated. -/
structure CStr where
  bytes : Bytes
  nonul : 0 ∉ bytes
  deriving DecidableEq

namespace CStr

def ofBytes (s : Bytes) (h : 0 ∉ s) : CStr := ⟨s, h⟩

def empty : CStr := ⟨[], by simp⟩

instance : Inhabited CStr := ⟨empty⟩

/-- Terminated inside an array of `cap` bytes and not empty. -/
def bounded (s : CStr) (cap : Nat) : Bool := s.bytes.length < cap && s.bytes != []

/-- What `snprintf(out, cap, "%s", s)` leaves in `out`. -/
def snprintf (cap : Nat) (s : CStr) : CStr :=
  ⟨s.bytes.take (cap - 1), fun h => s.nonul (List.mem_of_mem_take h)⟩

theorem snprintf_eq {s : CStr} {cap : Nat} (h : s.bytes.length < cap) : s.snprintf cap = s := by
  obtain ⟨b, hb⟩ := s
  simp only [snprintf, mk.injEq]
  exact List.take_of_length_le (by simp only at h; omega)

end CStr

def toLower (b : UInt8) : UInt8 := if 0x41 ≤ b && b ≤ 0x5A then b + 0x20 else b

/-- `strcasecmp(s, t) == 0`. -/
def strcasecmpEq (s t : Bytes) : Bool := s.map toLower == t.map toLower

theorem strcasecmpEq_self (s : Bytes) : strcasecmpEq s s = true := by simp [strcasecmpEq]

end FlowAlarm.Text
