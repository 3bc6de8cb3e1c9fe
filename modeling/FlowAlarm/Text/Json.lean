import FlowAlarm.Text.Bytes
import Mathlib.Data.List.Forall2

/-!
# JSON text

A JSON tree keeps numbers as their literal text: what a literal means differs
between readers, so each reader converts it itself. `Json.print esc` is the
compact printer over a string-escaping function; `Dialect.parse` is the
recursive-descent reader over a `Dialect` (white space, number lexer, string
lexer), with the nesting depth as its recursion bound.

* `Dialect.parse_print`: reading back what was printed, given that the
  dialect reads each string and each number literal of the tree (`Reads`).
* `Dialect.parse_append`: a value read from a text is read from every
  extension of the text, unless it is a number that ended the text. A
  proper cut of a printed object therefore never reads as a value
  (`Dialect.parse_cut`).
-/

namespace FlowAlarm.Text

inductive Json where
  | null
  | bool (b : Bool)
  | num (lit : Bytes)
  | str (s : Bytes)
  | arr (xs : List Json)
  | obj (ms : List (Bytes × Json))

/-- Texts joined by commas. -/
def commaSep : List Bytes → Bytes
  | [] => []
  | t :: ts => t ++ ts.flatMap (0x2C :: ·)

/-- A quoted string, its content escaped by `esc`. -/
def quoted (esc : Bytes → Bytes) (s : Bytes) : Bytes := 0x22 :: (esc s ++ [0x22])

namespace Json

mutual

def print (esc : Bytes → Bytes) : Json → Bytes
  | .null => ascii "null"
  | .bool true => ascii "true"
  | .bool false => ascii "false"
  | .num l => l
  | .str s => quoted esc s
  | .arr xs => 0x5B :: (commaSep (printElems esc xs) ++ [0x5D])
  | .obj ms => 0x7B :: (commaSep (printMembers esc ms) ++ [0x7D])

def printElems (esc : Bytes → Bytes) : List Json → List Bytes
  | [] => []
  | x :: xs => print esc x :: printElems esc xs

def printMembers (esc : Bytes → Bytes) : List (Bytes × Json) → List Bytes
  | [] => []
  | (k, x) :: ms => (quoted esc k ++ 0x3A :: print esc x) :: printMembers esc ms

end

mutual

/-- The number literals of a tree. -/
def lits : Json → List Bytes
  | .num l => [l]
  | .arr xs => litsElems xs
  | .obj ms => litsMembers ms
  | _ => []

def litsElems : List Json → List Bytes
  | [] => []
  | x :: xs => lits x ++ litsElems xs

def litsMembers : List (Bytes × Json) → List Bytes
  | [] => []
  | (_, x) :: ms => lits x ++ litsMembers ms

end

def isContainer : Json → Bool
  | .arr _ | .obj _ => true
  | _ => false

end Json

/-! ## Escapes -/

/-- The value of a hexadecimal digit of either case. -/
def hexVal (b : UInt8) : Option Nat :=
  if 0x30 ≤ b ∧ b ≤ 0x39 then some (b.toNat - 0x30)
  else if 0x41 ≤ b ∧ b ≤ 0x46 then some (10 + b.toNat - 0x41)
  else if 0x61 ≤ b ∧ b ≤ 0x66 then some (10 + b.toNat - 0x61)
  else none

/-- The byte that a backslash and `c` stand for, other than `\u`. -/
def simpleEscape (c : UInt8) : Option UInt8 :=
  if c = 0x62 then some 0x08
  else if c = 0x66 then some 0x0C
  else if c = 0x6E then some 0x0A
  else if c = 0x72 then some 0x0D
  else if c = 0x74 then some 0x09
  else if c = 0x22 ∨ c = 0x5C ∨ c = 0x2F then some c
  else none

/-! ## Readers -/

/-- What one JSON reader accepts. -/
structure Dialect where
  isSpace : UInt8 → Bool
  /-- Reads a number literal at the front of the text: literal and remainder. -/
  lexNumber : Bytes → Option (Bytes × Bytes)
  /-- Reads a string after its opening quote: content and remainder. -/
  lexString : Bytes → Option (Bytes × Bytes)
  space_le : ∀ b, isSpace b = true → b ≤ 0x20

namespace Dialect

variable (D : Dialect)

def skipWs (s : Bytes) : Bytes := s.dropWhile D.isSpace

/-- One or more items up to the closing byte; the first argument bounds their number. -/
def parseSeq {α : Type} (p : Bytes → Option (α × Bytes)) (close : UInt8) :
    Nat → Bytes → Option (List α × Bytes)
  | 0, _ => none
  | n + 1, s =>
    match p (D.skipWs s) with
    | none => none
    | some (x, s1) =>
      match D.skipWs s1 with
      | [] => none
      | b :: s2 =>
        if b = 0x2C then (parseSeq p close n s2).map fun r => (x :: r.1, r.2)
        else if b = close then some ([x], s2)
        else none

/-- The body of an array or object after its opening bracket. -/
def parseBody {α : Type} (p : Bytes → Option (α × Bytes)) (close : UInt8) (s : Bytes) :
    Option (List α × Bytes) :=
  match D.skipWs s with
  | [] => none
  | b :: t => if b = close then some ([], t) else D.parseSeq p close s.length (b :: t)

/-- An object member: quoted name, colon, value. -/
def parseMember (p : Bytes → Option (Json × Bytes)) (s : Bytes) : Option ((Bytes × Json) × Bytes) :=
  match s with
  | [] => none
  | b :: s1 =>
    if b = 0x22 then
      match D.lexString s1 with
      | none => none
      | some (k, s2) =>
        match D.skipWs s2 with
        | [] => none
        | c :: s3 => if c = 0x3A then (p (D.skipWs s3)).map fun r => ((k, r.1), r.2) else none
    else none

def dropPrefix (p s : Bytes) : Option Bytes :=
  if p.isPrefixOf s then some (s.drop p.length) else none

/-- The values that contain no other value; `b` is the first byte, `s` the text after it. -/
def parseScalar (b : UInt8) (s : Bytes) : Option (Json × Bytes) :=
  if b = 0x6E then (dropPrefix (ascii "ull") s).map (Json.null, ·)
  else if b = 0x74 then (dropPrefix (ascii "rue") s).map (Json.bool true, ·)
  else if b = 0x66 then (dropPrefix (ascii "alse") s).map (Json.bool false, ·)
  else if b = 0x22 then (D.lexString s).map fun r => (Json.str r.1, r.2)
  else if b = 0x2D ∨ isDigit b = true then
    (D.lexNumber (b :: s)).map fun r => (Json.num r.1, r.2)
  else none

/-- A value at the front of the text, nested at most `d` deep. -/
def parse : Nat → Bytes → Option (Json × Bytes)
  | _, [] => none
  | d, b :: s =>
    if b = 0x5B then
      match d with
      | 0 => none
      | d + 1 => (D.parseBody (parse d) 0x5D s).map fun r => (Json.arr r.1, r.2)
    else if b = 0x7B then
      match d with
      | 0 => none
      | d + 1 => (D.parseBody (D.parseMember (parse d)) 0x7D s).map fun r => (Json.obj r.1, r.2)
    else D.parseScalar b s

end Dialect

/-! ## Reading back a printed tree -/

/-- What may follow a value inside an array or object, or at the end of the text. -/
def Follow : Bytes → Prop
  | [] => True
  | b :: _ => b = 0x2C ∨ b = 0x5D ∨ b = 0x7D

/-- The dialect reads the literal `l` whole. -/
structure NumReads (D : Dialect) (l : Bytes) : Prop where
  head : ∃ b t, l = b :: t ∧ (b = 0x2D ∨ isDigit b = true)
  lex : ∀ rest, Follow rest → D.lexNumber (l ++ rest) = some (l, rest)

/-- The dialect reads the escaped string `s` as `s'`. -/
def StrReads (D : Dialect) (esc : Bytes → Bytes) (s s' : Bytes) : Prop :=
  ∀ rest, D.lexString (esc s ++ 0x22 :: rest) = some (s', rest)

/-- Printed with `esc` and read by `D` at depth `d`, the first tree comes back as the second. -/
def Reads (D : Dialect) (esc : Bytes → Bytes) : Nat → Json → Json → Prop
  | _, .null, .null => True
  | _, .bool a, .bool b => a = b
  | _, .num l, .num l' => l = l' ∧ NumReads D l
  | _, .str s, .str s' => StrReads D esc s s'
  | d + 1, .arr xs, .arr ys => List.Forall₂ (Reads D esc d) xs ys
  | d + 1, .obj ms, .obj ns =>
    List.Forall₂ (fun m n => StrReads D esc m.1 n.1 ∧ Reads D esc d m.2 n.2) ms ns
  | _, _, _ => False

section Laws

variable {D : Dialect} {esc : Bytes → Bytes}

theorem skipWs_cons {b : UInt8} {s : Bytes} (h : 0x20 < b) : D.skipWs (b :: s) = b :: s := by
  have hb : D.isSpace b = false := by
    by_contra hc
    have := D.space_le b (by simpa using hc)
    rw [UInt8.le_iff_toNat_le] at this
    rw [UInt8.lt_iff_toNat_lt] at h
    omega
  simp [Dialect.skipWs, hb]

/-- The text of one item: it starts with a visible byte and `p` reads it whole. -/
structure ItemReads {α : Type} (p : Bytes → Option (α × Bytes)) (t : Bytes) (x : α) : Prop where
  head : ∃ b u, t = b :: u ∧ 0x20 < b ∧ b ≠ 0x5D ∧ b ≠ 0x7D
  read : ∀ rest, Follow rest → p (t ++ rest) = some (x, rest)

theorem commaSep_cons_cons (t u : Bytes) (ts : List Bytes) :
    commaSep (t :: u :: ts) = t ++ 0x2C :: commaSep (u :: ts) := by
  simp [commaSep]

theorem parseSeq_read {α : Type} {p : Bytes → Option (α × Bytes)} {close : UInt8}
    (hc : close = 0x5D ∨ close = 0x7D) {ts : List Bytes} {xs : List α}
    (h : List.Forall₂ (ItemReads p) ts xs) (hne : ts ≠ []) :
    ∀ (n : Nat) (rest : Bytes), ts.length ≤ n →
      D.parseSeq p close n (commaSep ts ++ close :: rest) = some (xs, rest) := by
  have hcl : 0x20 < close := by rcases hc with rfl | rfl <;> decide
  have hcc : close ≠ 0x2C := by rcases hc with rfl | rfl <;> decide
  induction h with
  | nil => exact absurd rfl hne
  | @cons t x ts xs hi hs ih =>
    intro n rest hn
    obtain ⟨m, rfl⟩ : ∃ m, n = m + 1 := ⟨n - 1, by simp only [List.length_cons] at hn; omega⟩
    obtain ⟨b, u, rfl, hb, -, -⟩ := hi.head
    cases ts with
    | nil =>
      cases hs
      have hr := hi.read (close :: rest) (by rcases hc with rfl | rfl <;> simp [Follow])
      simp only [commaSep, List.flatMap_nil, List.append_nil, List.cons_append] at hr ⊢
      simp only [Dialect.parseSeq, skipWs_cons hb, hr, skipWs_cons hcl, if_neg hcc, if_true]
    | cons t' ts =>
      have hr := hi.read (0x2C :: (commaSep (t' :: ts) ++ close :: rest)) (.inl rfl)
      have hrec := ih (by simp) m rest (by simp only [List.length_cons] at hn ⊢; omega)
      simp only [List.cons_append] at hr
      rw [commaSep_cons_cons]
      simp only [List.append_assoc, List.cons_append]
      simp only [Dialect.parseSeq, skipWs_cons hb, hr,
        skipWs_cons (show (0x20 : UInt8) < 0x2C by decide), if_true, hrec, Option.map_some]

theorem commaSep_head {t : Bytes} (ts : List Bytes) {b : UInt8} {u : Bytes} (h : t = b :: u) :
    ∃ v, commaSep (t :: ts) = b :: v := by
  subst h
  exact ⟨u ++ ts.flatMap (0x2C :: ·), rfl⟩

theorem length_le_commaSep {α : Type} {p : Bytes → Option (α × Bytes)} {ts : List Bytes}
    {xs : List α} (h : List.Forall₂ (ItemReads p) ts xs) : ts.length ≤ (commaSep ts).length := by
  induction h with
  | nil => simp
  | @cons t x ts xs hi _ ih =>
    obtain ⟨b, u, rfl, -⟩ := hi.head
    cases ts with
    | nil => simp [commaSep]
    | cons t' ts =>
      rw [commaSep_cons_cons]
      simp only [List.length_append, List.length_cons] at ih ⊢
      omega

theorem parseBody_read {α : Type} {p : Bytes → Option (α × Bytes)} {close : UInt8}
    (hc : close = 0x5D ∨ close = 0x7D) {ts : List Bytes} {xs : List α}
    (h : List.Forall₂ (ItemReads p) ts xs) (rest : Bytes) :
    D.parseBody p close (commaSep ts ++ close :: rest) = some (xs, rest) := by
  have hcl : 0x20 < close := by rcases hc with rfl | rfl <;> decide
  cases h with
  | nil => simp only [commaSep, List.nil_append, Dialect.parseBody, skipWs_cons hcl, if_true]
  | @cons t x ts xs hi hs =>
    obtain ⟨b, u, ht, hb, h1, h2⟩ := hi.head
    obtain ⟨v, hv⟩ := commaSep_head ts ht
    have hlen := length_le_commaSep (.cons hi hs)
    have hseq := parseSeq_read (D := D) hc (.cons hi hs) (by simp)
      (commaSep (t :: ts) ++ close :: rest).length rest (by simp only [List.length_append]; omega)
    have hbc : b ≠ close := by rcases hc with rfl | rfl <;> assumption
    rw [hv] at hseq ⊢
    simp only [List.cons_append] at hseq ⊢
    simp only [Dialect.parseBody, skipWs_cons hb, if_neg hbc]
    exact hseq

theorem printElems_eq (xs : List Json) : Json.printElems esc xs = xs.map (Json.print esc) := by
  induction xs with
  | nil => rfl
  | cons x xs ih => simp only [Json.printElems, ih, List.map_cons]

theorem printMembers_eq (ms : List (Bytes × Json)) :
    Json.printMembers esc ms = ms.map fun m => quoted esc m.1 ++ 0x3A :: Json.print esc m.2 := by
  induction ms with
  | nil => rfl
  | cons m ms ih => simp only [Json.printMembers, ih, List.map_cons]

/-- A printed value starts with a visible byte that closes nothing. -/
theorem print_head {d : Nat} {j j' : Json} (h : Reads D esc d j j') :
    ∃ b u, Json.print esc j = b :: u ∧ 0x20 < b ∧ b ≠ 0x5D ∧ b ≠ 0x7D := by
  cases j with
  | null => exact ⟨0x6E, ascii "ull", rfl, by decide, by decide, by decide⟩
  | bool b =>
    cases b with
    | false => exact ⟨0x66, ascii "alse", rfl, by decide, by decide, by decide⟩
    | true => exact ⟨0x74, ascii "rue", rfl, by decide, by decide, by decide⟩
  | num l =>
    cases j' <;> simp only [Reads] at h
    obtain ⟨b, t, rfl, hb⟩ := h.2.head
    refine ⟨b, t, by simp only [Json.print], ?_⟩
    rcases hb with rfl | hb
    · decide
    · rw [isDigit_iff] at hb
      refine ⟨UInt8.lt_iff_toNat_lt.mpr ?_, fun e => ?_, fun e => ?_⟩
      · show 0x20 < b.toNat
        omega
      · rw [e] at hb; revert hb; decide
      · rw [e] at hb; revert hb; decide
  | str s => exact ⟨0x22, _, by simp only [Json.print, quoted]; rfl, by decide, by decide, by decide⟩
  | arr xs => exact ⟨0x5B, _, by simp only [Json.print]; rfl, by decide, by decide, by decide⟩
  | obj ms => exact ⟨0x7B, _, by simp only [Json.print]; rfl, by decide, by decide, by decide⟩

theorem parseMember_read {p : Bytes → Option (Json × Bytes)} {k k' t : Bytes} {x : Json}
    (hk : StrReads D esc k k') (hx : ItemReads p t x) :
    ItemReads (D.parseMember p) (quoted esc k ++ 0x3A :: t) (k', x) := by
  refine ⟨⟨0x22, esc k ++ [0x22] ++ 0x3A :: t, rfl, by decide, by decide, by decide⟩, ?_⟩
  intro rest hf
  obtain ⟨b, u, rfl, hb, -⟩ := hx.head
  have hr := hx.read rest hf
  have hs := hk (0x3A :: (b :: u ++ rest))
  simp only [quoted, List.cons_append, List.append_assoc, List.nil_append] at hr hs ⊢
  simp only [Dialect.parseMember, if_true, hs, skipWs_cons (show (0x20 : UInt8) < 0x3A by decide),
    skipWs_cons hb, hr, Option.map_some]

theorem parseScalar_read {d : Nat} {j j' : Json} (h : Reads D esc d j j')
    (hj : j.isContainer = false) {b : UInt8} {u : Bytes} (hp : Json.print esc j = b :: u)
    {rest : Bytes} (hf : Follow rest) : D.parseScalar b (u ++ rest) = some (j', rest) := by
  cases j with
  | null =>
    cases j' <;> simp only [Reads] at h
    simp only [Json.print, show ascii "null" = 0x6E :: ascii "ull" from rfl, List.cons.injEq] at hp
    obtain ⟨rfl, rfl⟩ := hp
    simp [Dialect.parseScalar, Dialect.dropPrefix, List.isPrefixOf_iff_prefix]
  | bool v =>
    cases j' <;> simp only [Reads] at h
    subst h
    cases v with
    | false =>
      simp only [Json.print, show ascii "false" = 0x66 :: ascii "alse" from rfl, List.cons.injEq] at hp
      obtain ⟨rfl, rfl⟩ := hp
      simp [Dialect.parseScalar, Dialect.dropPrefix, List.isPrefixOf_iff_prefix]
    | true =>
      simp only [Json.print, show ascii "true" = 0x74 :: ascii "rue" from rfl, List.cons.injEq] at hp
      obtain ⟨rfl, rfl⟩ := hp
      simp [Dialect.parseScalar, Dialect.dropPrefix, List.isPrefixOf_iff_prefix]
  | num l =>
    cases j' <;> simp only [Reads] at h
    obtain ⟨rfl, hn⟩ := h
    simp only [Json.print] at hp
    obtain ⟨c, t, hl, hc⟩ := hn.head
    obtain ⟨rfl, rfl⟩ : c = b ∧ t = u := by rw [hl] at hp; simpa using hp
    have hlex := hn.lex rest hf
    rw [hl, List.cons_append] at hlex
    have hdig : c = 0x2D ∨ 0x30 ≤ c.toNat ∧ c.toNat ≤ 0x39 := hc.imp_right isDigit_iff.mp
    have hne : ∀ x : UInt8, x ≠ 0x2D → ¬ (0x30 ≤ x.toNat ∧ x.toNat ≤ 0x39) → c ≠ x := by
      rintro x h1 h2 rfl
      exact hdig.elim h1 h2
    simp only [Dialect.parseScalar, if_neg (hne 0x6E (by decide) (by decide)),
      if_neg (hne 0x74 (by decide) (by decide)), if_neg (hne 0x66 (by decide) (by decide)),
      if_neg (hne 0x22 (by decide) (by decide)), if_pos hc, hlex, Option.map_some, hl]
  | str s =>
    cases j' <;> simp only [Reads] at h
    simp only [Json.print, quoted, List.cons.injEq] at hp
    obtain ⟨rfl, rfl⟩ := hp
    have hs := h rest
    simp [Dialect.parseScalar, hs]
  | arr xs => simp [Json.isContainer] at hj
  | obj ms => simp [Json.isContainer] at hj

theorem forall₂_map_left {α β γ : Type} {R : α → β → Prop} {S : γ → β → Prop} {f : α → γ}
    (hf : ∀ a b, R a b → S (f a) b) {xs : List α} {ys : List β} (h : List.Forall₂ R xs ys) :
    List.Forall₂ S (xs.map f) ys := by
  induction h with
  | nil => exact .nil
  | cons hab _ ih => exact .cons (hf _ _ hab) ih

/-- **A printed tree reads back.** Containers read back before any remainder, scalars before
one that may follow a value. -/
theorem Dialect.parse_print {d : Nat} {j j' : Json} (h : Reads D esc d j j') (rest : Bytes)
    (hf : j.isContainer = true ∨ Follow rest) :
    D.parse d (Json.print esc j ++ rest) = some (j', rest) := by
  induction d generalizing j j' rest with
  | zero =>
    cases hj : j.isContainer with
    | true => cases j <;> cases j' <;> simp_all [Json.isContainer, Reads]
    | false =>
      obtain ⟨b, u, hp, -⟩ := print_head h
      have hs := parseScalar_read h hj hp (hf.resolve_left (by simp [hj]))
      have hb1 : b ≠ 0x5B ∧ b ≠ 0x7B := scalar_head h hj hp
      rw [hp, List.cons_append]
      simp only [Dialect.parse, if_neg hb1.1, if_neg hb1.2, hs]
  | succ d ih =>
    have item : ∀ {x y : Json}, Reads D esc d x y → ItemReads (D.parse d) (Json.print esc x) y :=
      fun hxy => ⟨print_head hxy, fun rest hr => ih hxy rest (.inr hr)⟩
    cases hj : j.isContainer with
    | false =>
      obtain ⟨b, u, hp, -⟩ := print_head h
      have hs := parseScalar_read h hj hp (hf.resolve_left (by simp [hj]))
      have hb1 : b ≠ 0x5B ∧ b ≠ 0x7B := scalar_head h hj hp
      rw [hp, List.cons_append]
      simp only [Dialect.parse, if_neg hb1.1, if_neg hb1.2, hs]
    | true =>
      cases j with
      | arr xs =>
        cases j' <;> simp only [Reads] at h
        have hb := parseBody_read (D := D) (.inl rfl)
          (forall₂_map_left (S := ItemReads (D.parse d)) (fun _ _ hxy => item hxy) h) rest
        simp only [Json.print, printElems_eq, List.cons_append, List.append_assoc, List.nil_append]
        simp only [Dialect.parse, if_true, hb, Option.map_some]
      | obj ms =>
        cases j' <;> simp only [Reads] at h
        have hb := parseBody_read (D := D) (.inr rfl)
          (forall₂_map_left (S := ItemReads (D.parseMember (D.parse d)))
            (fun m n hmn => parseMember_read hmn.1 (item hmn.2)) h) rest
        simp only [Json.print, printMembers_eq, List.cons_append, List.append_assoc, List.nil_append]
        simp only [Dialect.parse, show (0x7B : UInt8) ≠ 0x5B by decide, if_false, if_true, hb,
          Option.map_some]
      | _ => simp [Json.isContainer] at hj
where
  scalar_head {d : Nat} {j j' : Json} (h : Reads D esc d j j') (hj : j.isContainer = false)
      {b : UInt8} {u : Bytes} (hp : Json.print esc j = b :: u) : b ≠ 0x5B ∧ b ≠ 0x7B := by
    cases j with
    | null => simp only [Json.print, show ascii "null" = 0x6E :: ascii "ull" from rfl,
        List.cons.injEq] at hp; rw [← hp.1]; decide
    | bool v =>
      cases v with
      | false => simp only [Json.print, show ascii "false" = 0x66 :: ascii "alse" from rfl,
          List.cons.injEq] at hp; rw [← hp.1]; decide
      | true => simp only [Json.print, show ascii "true" = 0x74 :: ascii "rue" from rfl,
          List.cons.injEq] at hp; rw [← hp.1]; decide
    | num l =>
      cases j' <;> simp only [Reads] at h
      simp only [Json.print] at hp
      obtain ⟨c, t, hl, hc⟩ := h.2.head
      obtain ⟨rfl, -⟩ : c = b ∧ t = u := by rw [hl] at hp; simpa using hp
      constructor <;> rintro rfl <;> revert hc <;> decide
    | str s => simp only [Json.print, quoted, List.cons.injEq] at hp; rw [← hp.1]; decide
    | arr xs => simp [Json.isContainer] at hj
    | obj ms => simp [Json.isContainer] at hj

end Laws

/-! ## Reading a longer text -/

/-- A string is read up to its closing quote and a number up to the byte that ends it, whatever
stands behind. -/
structure Dialect.Local (D : Dialect) : Prop where
  str : ∀ {s k r : Bytes} (q : Bytes), D.lexString s = some (k, r) →
    D.lexString (s ++ q) = some (k, r ++ q)
  num : ∀ {s l r : Bytes} (q : Bytes), D.lexNumber s = some (l, r) → r ≠ [] →
    D.lexNumber (s ++ q) = some (l, r ++ q)

section Extension

variable {D : Dialect}

/-- `p` reads nothing from the empty text, and the same value from a longer text if the value did
not end the text. -/
structure Extends {α : Type} (p : Bytes → Option (α × Bytes)) : Prop where
  nil : p [] = none
  append : ∀ {s r : Bytes} {x : α} (q : Bytes), p s = some (x, r) → r ≠ [] →
    p (s ++ q) = some (x, r ++ q)

theorem skipWs_append {s t : Bytes} {b : UInt8} (q : Bytes) (h : D.skipWs s = b :: t) :
    D.skipWs (s ++ q) = b :: (t ++ q) := by
  unfold Dialect.skipWs at h ⊢
  induction s with
  | nil => simp at h
  | cons c s ih =>
    simp only [List.cons_append, List.dropWhile_cons] at h ⊢
    split at h
    · next hc => simpa [hc] using ih h
    · next hc => simpa [hc] using congrArg (· ++ q) h

theorem Extends.skipWs {α : Type} {p : Bytes → Option (α × Bytes)} (hp : Extends p)
    {s r : Bytes} {x : α} (q : Bytes) (h : p (D.skipWs s) = some (x, r)) (hr : r ≠ []) :
    p (D.skipWs (s ++ q)) = some (x, r ++ q) := by
  cases hw : D.skipWs s with
  | nil => rw [hw, hp.nil] at h; cases h
  | cons c t =>
    rw [skipWs_append q hw, ← List.cons_append]
    exact hp.append q (hw ▸ h) hr

theorem ne_nil_of_skipWs {s t : Bytes} {b : UInt8} (h : D.skipWs s = b :: t) : s ≠ [] := by
  rintro rfl
  simp [Dialect.skipWs] at h

theorem parseSeq_append {α : Type} {p : Bytes → Option (α × Bytes)} (hp : Extends p)
    {close : UInt8} {n m : Nat} {s r : Bytes} {xs : List α} (q : Bytes) (hnm : n ≤ m)
    (h : D.parseSeq p close n s = some (xs, r)) :
    D.parseSeq p close m (s ++ q) = some (xs, r ++ q) := by
  induction n generalizing m s r xs with
  | zero => simp [Dialect.parseSeq] at h
  | succ n ih =>
    obtain ⟨m, rfl⟩ : ∃ k, m = k + 1 := ⟨m - 1, by omega⟩
    simp only [Dialect.parseSeq] at h ⊢
    cases hx : p (D.skipWs s) with
    | none => simp [hx] at h
    | some xr =>
      obtain ⟨x, s1⟩ := xr
      simp only [hx] at h
      cases hw : D.skipWs s1 with
      | nil => simp [hw] at h
      | cons b s2 =>
        simp only [hw] at h
        simp only [hp.skipWs q hx (ne_nil_of_skipWs hw), skipWs_append q hw]
        split at h
        · next hb =>
          obtain ⟨⟨ys, r'⟩, hrec, he⟩ := Option.map_eq_some_iff.mp h
          cases he
          rw [if_pos hb, ih (by omega) hrec, Option.map_some]
        · next hb =>
          split at h
          · next hc => cases h; rw [if_neg hb, if_pos hc]
          · cases h

theorem parseBody_append {α : Type} {p : Bytes → Option (α × Bytes)} (hp : Extends p)
    {close : UInt8} {s r : Bytes} {xs : List α} (q : Bytes)
    (h : D.parseBody p close s = some (xs, r)) :
    D.parseBody p close (s ++ q) = some (xs, r ++ q) := by
  cases hw : D.skipWs s with
  | nil => simp [Dialect.parseBody, hw] at h
  | cons b t =>
    simp only [Dialect.parseBody, hw, skipWs_append q hw] at h ⊢
    split at h
    · next hb => cases h; rw [if_pos hb]
    · next hb =>
      rw [if_neg hb, ← List.cons_append]
      exact parseSeq_append hp q (by simp) h

theorem parseMember_append {p : Bytes → Option (Json × Bytes)} (hD : D.Local) (hp : Extends p) :
    Extends (D.parseMember p) := by
  refine ⟨rfl, fun {s r x} q h hr => ?_⟩
  cases s with
  | nil => simp [Dialect.parseMember] at h
  | cons b s1 =>
    simp only [Dialect.parseMember, List.cons_append] at h ⊢
    split at h
    case isFalse => cases h
    case isTrue hb =>
      rw [if_pos hb]
      cases hk : D.lexString s1 with
      | none => simp [hk] at h
      | some kr =>
        obtain ⟨k, s2⟩ := kr
        simp only [hk, hD.str q hk] at h ⊢
        cases hw : D.skipWs s2 with
        | nil => simp [hw] at h
        | cons c s3 =>
          simp only [hw, skipWs_append q hw] at h ⊢
          split at h
          case isFalse => cases h
          case isTrue hc =>
            obtain ⟨⟨y, r'⟩, hv, he⟩ := Option.map_eq_some_iff.mp h
            cases he
            rw [if_pos hc, hp.skipWs q hv hr, Option.map_some]

theorem dropPrefix_append {w s r : Bytes} (q : Bytes) (h : Dialect.dropPrefix w s = some r) :
    Dialect.dropPrefix w (s ++ q) = some (r ++ q) := by
  unfold Dialect.dropPrefix at h ⊢
  split at h
  case isFalse => cases h
  case isTrue hw =>
    obtain ⟨t, rfl⟩ := List.isPrefixOf_iff_prefix.mp hw
    cases h
    have : w.isPrefixOf (w ++ t ++ q) = true := by
      rw [List.isPrefixOf_iff_prefix, List.append_assoc]
      exact List.prefix_append _ _
    rw [if_pos this]
    simp

/-- A number may go on in the longer text; every other value has its own end. -/
def Json.Ends (j : Json) (r : Bytes) : Prop := r ≠ [] ∨ ∀ l, j ≠ .num l

theorem parseScalar_append (hD : D.Local) {b : UInt8} {s r : Bytes} {j : Json} (q : Bytes)
    (h : D.parseScalar b s = some (j, r)) (hj : j.Ends r) :
    D.parseScalar b (s ++ q) = some (j, r ++ q) := by
  unfold Dialect.parseScalar at h ⊢
  split at h
  · next hb =>
    obtain ⟨r', hd, he⟩ := Option.map_eq_some_iff.mp h
    cases he
    rw [if_pos hb, dropPrefix_append q hd, Option.map_some]
  rw [if_neg ‹_›]
  split at h
  · next hb =>
    obtain ⟨r', hd, he⟩ := Option.map_eq_some_iff.mp h
    cases he
    rw [if_pos hb, dropPrefix_append q hd, Option.map_some]
  rw [if_neg ‹_›]
  split at h
  · next hb =>
    obtain ⟨r', hd, he⟩ := Option.map_eq_some_iff.mp h
    cases he
    rw [if_pos hb, dropPrefix_append q hd, Option.map_some]
  rw [if_neg ‹_›]
  split at h
  · next hb =>
    obtain ⟨⟨k, r'⟩, hd, he⟩ := Option.map_eq_some_iff.mp h
    cases he
    rw [if_pos hb, hD.str q hd, Option.map_some]
  rw [if_neg ‹_›]
  split at h
  · next hb =>
    obtain ⟨⟨l, r'⟩, hd, he⟩ := Option.map_eq_some_iff.mp h
    cases he
    have hr : r' ≠ [] := hj.resolve_right fun hn => hn l rfl
    rw [if_pos hb, ← List.cons_append, hD.num q hd hr, Option.map_some]
  · cases h

/-- **A value read from a text is read from every longer text**, unless it is a number that ended
the text. -/
theorem Dialect.parse_append (hD : D.Local) {d : Nat} {s r : Bytes} {j : Json} (q : Bytes)
    (h : D.parse d s = some (j, r)) (hj : j.Ends r) : D.parse d (s ++ q) = some (j, r ++ q) := by
  induction d generalizing s r j q with
  | zero =>
    cases s with
    | nil => simp [Dialect.parse] at h
    | cons b s =>
      simp only [List.cons_append, Dialect.parse] at h ⊢
      split at h
      · cases h
      · next h1 =>
        split at h
        · cases h
        · next h2 =>
          rw [if_neg h1, if_neg h2]
          exact parseScalar_append hD q h hj
  | succ d ih =>
    have hp : Extends (D.parse d) := ⟨by simp [Dialect.parse], fun q h hr => ih q h (.inl hr)⟩
    cases s with
    | nil => simp [Dialect.parse] at h
    | cons b s =>
      simp only [List.cons_append, Dialect.parse] at h ⊢
      split at h
      · next h1 =>
        obtain ⟨⟨xs, r'⟩, hb, he⟩ := Option.map_eq_some_iff.mp h
        cases he
        rw [if_pos h1, parseBody_append hp q hb, Option.map_some]
      · next h1 =>
        split at h
        · next h2 =>
          obtain ⟨⟨xs, r'⟩, hb, he⟩ := Option.map_eq_some_iff.mp h
          cases he
          rw [if_neg h1, if_pos h2, parseBody_append (parseMember_append hD hp) q hb,
            Option.map_some]
        · next h2 =>
          rw [if_neg h1, if_neg h2]
          exact parseScalar_append hD q h hj

/-- What starts with a brace is read as an object. -/
theorem parse_brace {d : Nat} {s r : Bytes} {j : Json} (h : D.parse d (0x7B :: s) = some (j, r)) :
    ∃ ms, j = .obj ms := by
  cases d with
  | zero => simp [Dialect.parse] at h
  | succ d =>
    simp only [Dialect.parse, show (0x7B : UInt8) ≠ 0x5B by decide, if_false, if_true] at h
    obtain ⟨⟨xs, r'⟩, -, he⟩ := Option.map_eq_some_iff.mp h
    cases he
    exact ⟨_, rfl⟩

/-- **A proper cut of a printed object is not a value.** -/
theorem Dialect.parse_cut (hD : D.Local) {esc : Bytes → Bytes} {d : Nat}
    {ms : List (Bytes × Json)} {j' : Json} (h : Reads D esc d (.obj ms) j') {u v : Bytes}
    (huv : u ++ v = Json.print esc (.obj ms)) (hv : v ≠ []) : D.parse d u = none := by
  cases hp : D.parse d u with
  | none => rfl
  | some jr =>
    obtain ⟨j, r⟩ := jr
    cases u with
    | nil => simp [Dialect.parse] at hp
    | cons b u =>
      have hb : b = 0x7B := by
        simp only [Json.print, List.cons_append, List.cons.injEq] at huv
        exact huv.1
      subst hb
      obtain ⟨ns, rfl⟩ := parse_brace hp
      have hext := Dialect.parse_append hD v hp (.inr fun l => by simp)
      have hfull := Dialect.parse_print h [] (.inr trivial)
      rw [huv, ← List.append_nil (Json.print esc _), hfull] at hext
      simp at hext
      exact absurd hext.2.2 hv

end Extension

/-! ## Bytes a printed text avoids -/

theorem mem_commaSep {x : UInt8} (hx : x < 0x20) {ts : List Bytes} (h : x ∈ commaSep ts) :
    ∃ t ∈ ts, x ∈ t := by
  cases ts with
  | nil => cases h
  | cons t ts =>
    simp only [commaSep, List.mem_append, List.mem_flatMap, List.mem_cons] at h
    rcases h with h | ⟨u, hu, rfl | h⟩
    · exact ⟨t, List.mem_cons_self, h⟩
    · exact absurd hx (by decide)
    · exact ⟨u, List.mem_cons_of_mem _ hu, h⟩

theorem word_visible : ∀ w ∈ [ascii "null", ascii "true", ascii "false"], ∀ b ∈ w, ¬ b < 0x20 := by
  decide +kernel

theorem not_mem_quoted {x : UInt8} {esc : Bytes → Bytes} (hx : x < 0x20) (he : ∀ s, x ∉ esc s)
    (s : Bytes) : x ∉ quoted esc s := by
  intro h
  simp only [quoted, List.mem_cons, List.mem_append, List.not_mem_nil, or_false] at h
  rcases h with rfl | h | rfl
  · exact absurd hx (by decide)
  · exact he s h
  · exact absurd hx (by decide)

mutual

/-- A control byte that no escape and no literal contains is not in the printed text. -/
theorem Json.not_mem_print {x : UInt8} {esc : Bytes → Bytes} (hx : x < 0x20)
    (he : ∀ s, x ∉ esc s) : ∀ j : Json, (∀ l ∈ j.lits, x ∉ l) → x ∉ j.print esc
  | .null, _, h => word_visible (ascii "null") (by simp) x (by rwa [Json.print] at h) hx
  | .bool true, _, h => word_visible (ascii "true") (by simp) x (by rwa [Json.print] at h) hx
  | .bool false, _, h => word_visible (ascii "false") (by simp) x (by rwa [Json.print] at h) hx
  | .num l, hl, h => hl l (by simp [Json.lits]) (by simpa [Json.print] using h)
  | .str s, _, h => not_mem_quoted hx he s (by simpa [Json.print] using h)
  | .arr xs, hl, h => by
    simp only [Json.print, List.mem_cons, List.mem_append, List.not_mem_nil, or_false] at h
    rcases h with rfl | h | rfl
    · exact absurd hx (by decide)
    · obtain ⟨t, ht, hxt⟩ := mem_commaSep hx h
      exact Json.not_mem_printElems hx he xs (by simpa [Json.lits] using hl) t ht hxt
    · exact absurd hx (by decide)
  | .obj ms, hl, h => by
    simp only [Json.print, List.mem_cons, List.mem_append, List.not_mem_nil, or_false] at h
    rcases h with rfl | h | rfl
    · exact absurd hx (by decide)
    · obtain ⟨t, ht, hxt⟩ := mem_commaSep hx h
      exact Json.not_mem_printMembers hx he ms (by simpa [Json.lits] using hl) t ht hxt
    · exact absurd hx (by decide)

theorem Json.not_mem_printElems {x : UInt8} {esc : Bytes → Bytes} (hx : x < 0x20)
    (he : ∀ s, x ∉ esc s) : ∀ xs : List Json, (∀ l ∈ Json.litsElems xs, x ∉ l) →
      ∀ t ∈ Json.printElems esc xs, x ∉ t
  | [], _, t, ht => by simp [Json.printElems] at ht
  | j :: js, hl, t, ht => by
    simp only [Json.litsElems, List.mem_append, Json.printElems, List.mem_cons] at hl ht
    rcases ht with rfl | ht
    · exact Json.not_mem_print hx he j fun l h => hl l (.inl h)
    · exact Json.not_mem_printElems hx he js (fun l h => hl l (.inr h)) t ht

theorem Json.not_mem_printMembers {x : UInt8} {esc : Bytes → Bytes} (hx : x < 0x20)
    (he : ∀ s, x ∉ esc s) : ∀ ms : List (Bytes × Json), (∀ l ∈ Json.litsMembers ms, x ∉ l) →
      ∀ t ∈ Json.printMembers esc ms, x ∉ t
  | [], _, t, ht => by simp [Json.printMembers] at ht
  | (k, j) :: ms, hl, t, ht => by
    simp only [Json.litsMembers, List.mem_append, Json.printMembers, List.mem_cons] at hl ht
    rcases ht with rfl | ht
    · intro h
      rcases List.mem_append.mp h with h | h
      · exact not_mem_quoted hx he k h
      · rcases List.mem_cons.mp h with rfl | h
        · exact absurd hx (by decide)
        · exact Json.not_mem_print hx he j (fun l hm => hl l (.inl hm)) h
    · exact Json.not_mem_printMembers hx he ms (fun l h => hl l (.inr h)) t ht

end

/-! ## Members -/

/-- With distinct names, the member at an index is the one its name finds. -/
theorem find?_name {α : Type} {ms : List (Bytes × α)} {i : Nat} {k : Bytes} {x : α}
    (hn : (ms.map (·.1)).Nodup) (h : ms[i]? = some (k, x)) :
    ms.find? (fun m => m.1 == k) = some (k, x) := by
  induction ms generalizing i with
  | nil => simp at h
  | cons m ms ih =>
    rw [List.map_cons, List.nodup_cons] at hn
    cases i with
    | zero =>
      rw [List.getElem?_cons_zero, Option.some.injEq] at h
      simp [h]
    | succ i =>
      rw [List.getElem?_cons_succ] at h
      have hk : m.1 ≠ k := by
        rintro rfl
        exact hn.1 (List.mem_map.mpr ⟨(m.1, x), List.mem_of_getElem? h, rfl⟩)
      simp [hk, ih hn.2 h]

/-! ## Strings -/

/-- The raw content up to the closing quote, and the text behind it. -/
def scanQuote : Bytes → Option (Bytes × Bytes)
  | [] => none
  | b :: s =>
    if b = 0x22 then some ([], s)
    else if b = 0x5C then
      match s with
      | [] => none
      | c :: t => (scanQuote t).map fun r => (b :: c :: r.1, r.2)
    else (scanQuote s).map fun r => (b :: r.1, r.2)

/-- A string is lexed by finding its end and then decoding what is between. -/
def lexQuoted (unquote : Bytes → Option Bytes) (s : Bytes) : Option (Bytes × Bytes) :=
  match scanQuote s with
  | none => none
  | some (raw, rest) => (unquote raw).map (·, rest)

theorem scanQuote_quote (s : Bytes) : scanQuote (0x22 :: s) = some ([], s) := by
  rw [scanQuote.eq_def]
  simp

theorem scanQuote_escape (c : UInt8) (t : Bytes) :
    scanQuote (0x5C :: c :: t) = (scanQuote t).map fun r => (0x5C :: c :: r.1, r.2) := by
  rw [scanQuote.eq_def]
  simp

theorem scanQuote_plain {b : UInt8} {s : Bytes} (h1 : b ≠ 0x22) (h2 : b ≠ 0x5C) :
    scanQuote (b :: s) = (scanQuote s).map fun r => (b :: r.1, r.2) := by
  rw [scanQuote.eq_def]
  simp [h1, h2]

theorem scanQuote_append {s raw r : Bytes} (q : Bytes) (h : scanQuote s = some (raw, r)) :
    scanQuote (s ++ q) = some (raw, r ++ q) := by
  induction s using scanQuote.induct generalizing raw r with
  | case1 => simp [scanQuote] at h
  | case2 s =>
    rw [scanQuote_quote, Option.some.injEq, Prod.mk.injEq] at h
    obtain ⟨rfl, rfl⟩ := h
    exact scanQuote_quote _
  | case3 =>
    rw [scanQuote.eq_def] at h
    simp at h
  | case4 c t hb ih =>
    rw [scanQuote_escape] at h
    obtain ⟨⟨raw', r'⟩, h', he⟩ := Option.map_eq_some_iff.mp h
    cases he
    rw [List.cons_append, List.cons_append, scanQuote_escape, ih h', Option.map_some]
  | case5 b s hb hc ih =>
    rw [scanQuote_plain hb hc] at h
    obtain ⟨⟨raw', r'⟩, h', he⟩ := Option.map_eq_some_iff.mp h
    cases he
    rw [List.cons_append, scanQuote_plain hb hc, ih h', Option.map_some]

theorem lexQuoted_append {unquote : Bytes → Option Bytes} {s k r : Bytes} (q : Bytes)
    (h : lexQuoted unquote s = some (k, r)) : lexQuoted unquote (s ++ q) = some (k, r ++ q) := by
  unfold lexQuoted at h ⊢
  cases hs : scanQuote s with
  | none => simp [hs] at h
  | some rr =>
    obtain ⟨raw, rest⟩ := rr
    simp only [hs] at h
    obtain ⟨k', hk, he⟩ := Option.map_eq_some_iff.mp h
    cases he
    simp only [scanQuote_append q hs, hk, Option.map_some]

/-- A raw text whose quotes and backslashes all stand behind a backslash. -/
inductive Quotable : Bytes → Prop where
  | nil : Quotable []
  | plain {b : UInt8} {s : Bytes} : b ≠ 0x22 → b ≠ 0x5C → Quotable s → Quotable (b :: s)
  | escape {c : UInt8} {s : Bytes} : Quotable s → Quotable (0x5C :: c :: s)

theorem Quotable.append {s t : Bytes} (h : Quotable s) (h' : Quotable t) : Quotable (s ++ t) := by
  induction h with
  | nil => exact h'
  | plain h1 h2 _ ih => exact .plain h1 h2 ih
  | escape _ ih => exact .escape ih

theorem Quotable.scan {s : Bytes} (h : Quotable s) (rest : Bytes) :
    scanQuote (s ++ 0x22 :: rest) = some (s, rest) := by
  induction h with
  | nil => exact scanQuote_quote rest
  | plain h1 h2 _ ih => rw [List.cons_append, scanQuote_plain h1 h2, ih, Option.map_some]
  | escape _ ih =>
    rw [List.cons_append, List.cons_append, scanQuote_escape, ih, Option.map_some]

theorem Quotable.lex {unquote : Bytes → Option Bytes} {s t : Bytes} (h : Quotable s)
    (hu : unquote s = some t) (rest : Bytes) :
    lexQuoted unquote (s ++ 0x22 :: rest) = some (t, rest) := by
  simp [lexQuoted, h.scan, hu]

end FlowAlarm.Text
