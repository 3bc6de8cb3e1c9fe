import FlowAlarm.Text.Base64
import FlowAlarm.Text.GoStruct

/-!
# The length of printed JSON

The text of an object is as long as its members take, each with its comma, and
one brace more. Escaping makes a string at most six times as long.
-/

namespace FlowAlarm.Text

open FlowAlarm.GoJson

theorem length_commaSep (ts : List Bytes) :
    (commaSep ts).length + 1 = max 1 (ts.map (·.length + 1)).sum := by
  cases ts with
  | nil => rfl
  | cons t ts =>
    have htail : (ts.flatMap (0x2C :: ·)).length = (ts.map (·.length + 1)).sum := by
      simp [List.length_flatMap]
    rw [commaSep, List.length_append, htail, List.map_cons, List.sum_cons]
    omega

/-- The bytes a member takes, with its comma; none if it is left out. -/
def memberSize (esc : Bytes → Bytes) : Option (Bytes × Json) → Nat
  | none => 0
  | some (k, v) => (quoted esc k).length + (v.print esc).length + 2

theorem sum_printMembers (esc : Bytes → Bytes) (ms : List (Option (Bytes × Json))) :
    ((Json.printMembers esc ms.reduceOption).map (·.length + 1)).sum =
      (ms.map (memberSize esc)).sum := by
  induction ms with
  | nil => rfl
  | cons m ms ih =>
    cases m with
    | none =>
      rw [List.reduceOption_cons_of_none, List.map_cons, List.sum_cons, memberSize, Nat.zero_add]
      exact ih
    | some m =>
      obtain ⟨k, v⟩ := m
      rw [List.reduceOption_cons_of_some, Json.printMembers, List.map_cons, List.sum_cons, ih,
        List.map_cons, List.sum_cons, memberSize, List.length_append, List.length_cons]
      omega

theorem length_print_obj (esc : Bytes → Bytes) (ms : List (Option (Bytes × Json))) :
    ((Json.obj ms.reduceOption).print esc).length = 1 + max 1 (ms.map (memberSize esc)).sum := by
  have h := length_commaSep (Json.printMembers esc ms.reduceOption)
  rw [sum_printMembers] at h
  simp only [Json.print, List.length_cons, List.length_append, List.length_nil]
  omega

theorem length_quoted (esc : Bytes → Bytes) (s : Bytes) :
    (quoted esc s).length = (esc s).length + 2 := by
  simp [quoted]

theorem length_print_str (esc : Bytes → Bytes) (s : Bytes) :
    ((Json.str s).print esc).length = (esc s).length + 2 := by
  rw [Json.print, length_quoted]

/-! ## Escaping -/

theorem length_escapeAscii (b : UInt8) : (escapeAscii b).length ≤ 6 := by
  unfold escapeAscii
  repeat' split
  all_goals simp

theorem length_escapeFrom (copy : Bool) (k : Nat) (s : Bytes) :
    (escapeFrom copy k s).length ≤ 6 * s.length := by
  fun_induction escapeFrom copy k s with
  | case1 => simp
  | case2 _ _ _ ih => simp only [List.length_cons]; omega
  | case3 _ _ _ _ ih => simp only [List.length_cons]; omega
  | case4 _ b s _ ih =>
    have := length_escapeAscii b
    simp only [List.length_append, List.length_cons]
    omega
  | case5 _ b s _ _ ih =>
    have : (ascii "\\ufffd").length = 6 := rfl
    simp only [List.length_append, List.length_cons]
    omega
  | case6 _ b s _ _ _ _ _ ih =>
    have : (ascii "\\u202").length = 5 := rfl
    simp only [List.length_append, List.length_cons]
    omega
  | case7 _ _ _ _ _ _ _ ih => simp only [List.length_cons]; omega

theorem length_escape_le (s : Bytes) : (escape s).length ≤ 6 * s.length := length_escapeFrom _ _ s

/-- Letters and digits are not escaped. -/
theorem escape_replicate {b : UInt8} (hb : b < 0x80) (hs : htmlSafe b = true) (n : Nat) :
    escape (List.replicate n b) = List.replicate n b := by
  induction n with
  | zero => rfl
  | succ n ih =>
    rw [List.replicate_succ, escape, escapeFrom, if_pos hb, escapeAscii, if_pos hs]
    exact congrArg (b :: ·) ih

theorem length_encode64_le (s : Bytes) : (encode64 s).length ≤ 2 * s.length := by
  fun_induction encode64 s with
  | case1 _ _ _ _ ih => simp only [List.length_cons]; omega
  | case2 => simp
  | case3 => simp
  | case4 => simp

end FlowAlarm.Text
