import FlowAlarm.Text.Bytes

/-!
# Base64

The URL alphabet without padding. `decode64` undoes `encode64`, so the
encoding is injective; its characters are ASCII letters, digits, `-` and `_`.
-/

namespace FlowAlarm.Text

def char64 (n : Nat) : UInt8 :=
  if n < 26 then UInt8.ofNat (0x41 + n)
  else if n < 52 then UInt8.ofNat (0x61 + (n - 26))
  else if n < 62 then UInt8.ofNat (0x30 + (n - 52))
  else if n = 62 then 0x2D else 0x5F

def val64 (b : UInt8) : Nat :=
  if b = 0x2D then 62
  else if b = 0x5F then 63
  else if b ≤ 0x39 then b.toNat - 0x30 + 52
  else if b ≤ 0x5A then b.toNat - 0x41
  else b.toNat - 0x61 + 26

def encode64 : Bytes → Bytes
  | a :: b :: c :: s =>
    char64 (a.toNat / 4) :: char64 (a.toNat % 4 * 16 + b.toNat / 16) ::
      char64 (b.toNat % 16 * 4 + c.toNat / 64) :: char64 (c.toNat % 64) :: encode64 s
  | [a, b] =>
    [char64 (a.toNat / 4), char64 (a.toNat % 4 * 16 + b.toNat / 16), char64 (b.toNat % 16 * 4)]
  | [a] => [char64 (a.toNat / 4), char64 (a.toNat % 4 * 16)]
  | [] => []

def decode64 : Bytes → Bytes
  | w :: x :: y :: z :: s =>
    UInt8.ofNat (val64 w * 4 + val64 x / 16) :: UInt8.ofNat (val64 x % 16 * 16 + val64 y / 4) ::
      UInt8.ofNat (val64 y % 4 * 64 + val64 z) :: decode64 s
  | [w, x, y] =>
    [UInt8.ofNat (val64 w * 4 + val64 x / 16), UInt8.ofNat (val64 x % 16 * 16 + val64 y / 4)]
  | [w, x] => [UInt8.ofNat (val64 w * 4 + val64 x / 16)]
  | _ => []

theorem val64_char64 : ∀ n < 64, val64 (char64 n) = n := by decide

/-- The characters of the alphabet are ASCII and no bar. -/
theorem char64_visible : ∀ n < 64, char64 n < 0x80 ∧ char64 n ≠ 0x7C := by decide

theorem ofNat_eq {n : Nat} {b : UInt8} (h : n = b.toNat) : UInt8.ofNat n = b := by
  rw [h, UInt8.ofNat_toNat]

theorem decode64_encode64 (s : Bytes) : decode64 (encode64 s) = s := by
  fun_induction encode64 s with
  | case1 a b c s ih =>
    have ha := a.toNat_lt
    have hb := b.toNat_lt
    have hc := c.toNat_lt
    rw [decode64, val64_char64 _ (by omega), val64_char64 _ (by omega), val64_char64 _ (by omega),
      val64_char64 _ (by omega), ih, ofNat_eq (b := a) (by omega), ofNat_eq (b := b) (by omega),
      ofNat_eq (b := c) (by omega)]
  | case2 a b =>
    have ha := a.toNat_lt
    have hb := b.toNat_lt
    rw [decode64, val64_char64 _ (by omega), val64_char64 _ (by omega), val64_char64 _ (by omega),
      ofNat_eq (b := a) (by omega), ofNat_eq (b := b) (by omega)]
  | case3 a =>
    have ha := a.toNat_lt
    rw [decode64, val64_char64 _ (by omega), val64_char64 _ (by omega), ofNat_eq (b := a) (by omega)]
  | case4 => rfl

theorem encode64_injective : Function.Injective encode64 := fun a b h => by
  rw [← decode64_encode64 a, h, decode64_encode64]

theorem mem_encode64 {s : Bytes} {x : UInt8} (h : x ∈ encode64 s) : x < 0x80 ∧ x ≠ 0x7C := by
  fun_induction encode64 s with
  | case1 a b c s ih =>
    have ha := a.toNat_lt
    have hb := b.toNat_lt
    have hc := c.toNat_lt
    simp only [List.mem_cons] at h
    rcases h with rfl | rfl | rfl | rfl | h
    · exact char64_visible _ (by omega)
    · exact char64_visible _ (by omega)
    · exact char64_visible _ (by omega)
    · exact char64_visible _ (by omega)
    · exact ih h
  | case2 a b =>
    have ha := a.toNat_lt
    have hb := b.toNat_lt
    simp only [List.mem_cons, List.not_mem_nil, or_false] at h
    rcases h with rfl | rfl | rfl
    · exact char64_visible _ (by omega)
    · exact char64_visible _ (by omega)
    · exact char64_visible _ (by omega)
  | case3 a =>
    have ha := a.toNat_lt
    simp only [List.mem_cons, List.not_mem_nil, or_false] at h
    rcases h with rfl | rfl
    · exact char64_visible _ (by omega)
    · exact char64_visible _ (by omega)
  | case4 => cases h

end FlowAlarm.Text
