import FlowAlarm.Text.Utf8

/-!
# XML

A reader of XML documents into tokens: tags and characters, with references,
CDATA sections and line ends resolved and comments and processing instructions
dropped. An empty-element tag is a token of its own. `readFuel_spec` bounds what
can be read from a text by its weight.
-/

namespace FlowAlarm.Xml

open FlowAlarm.Text

inductive Token where
  | start (name : Bytes) (attrs : List (Bytes × Bytes))
  | empty (name : Bytes) (attrs : List (Bytes × Bytes))
  | close (name : Bytes)
  | char (b : UInt8)
  deriving DecidableEq

/-! ## Characters -/

def isWhite (b : UInt8) : Bool := b == 0x20 || b == 0x09 || b == 0x0A || b == 0x0D

/-- A byte of a character that XML allows. Of the bytes from `0x80` on this reader checks nothing:
that they are UTF-8, and that none of the characters is U+FFFE or U+FFFF, is left out. -/
def isXmlByte (b : UInt8) : Bool := 0x20 ≤ b || b == 0x09 || b == 0x0A || b == 0x0D

/-- The characters that do not stand for themselves. -/
def isSpecial (b : UInt8) : Bool := b == 0x3C || b == 0x26 || b == 0x0D

def isNameStart (b : UInt8) : Bool :=
  (0x41 ≤ b && b ≤ 0x5A) || (0x61 ≤ b && b ≤ 0x7A) || b == 0x5F || b == 0x3A || 0x80 ≤ b

def isNameByte (b : UInt8) : Bool := isNameStart b || isDigit b || b == 0x2D || b == 0x2E

def isXmlChar (n : Nat) : Bool :=
  n == 0x09 || n == 0x0A || n == 0x0D || (0x20 ≤ n && n ≤ 0xD7FF) ||
    (0xE000 ≤ n && n ≤ 0xFFFD) || (0x10000 ≤ n && n ≤ 0x10FFFF)

/-! ## Parts -/

/-- The text before the first occurrence of a pattern, and the text behind it. -/
def breakAt (pat : Bytes) : Bytes → Option (Bytes × Bytes)
  | [] => none
  | b :: s =>
    if pat.isPrefixOf (b :: s) then some ([], (b :: s).drop pat.length)
    else (breakAt pat s).map fun r => (b :: r.1, r.2)

def scanName (s : Bytes) : Option (Bytes × Bytes) :=
  match s.takeWhile isNameByte with
  | [] => none
  | b :: name => if isNameStart b then some (b :: name, s.dropWhile isNameByte) else none

def isHex (b : UInt8) : Bool := isDigit b || (0x61 ≤ toLower b && toLower b ≤ 0x66)

def hexVal (s : Bytes) : Nat := Nat.ofDigits 16 (s.reverse.map fun b => hexDigitVal (toLower b))

def charRef (n : Nat) : Option Bytes := if isXmlChar n then some (utf8Encode n) else none

def entity (body : Bytes) : Option Bytes :=
  if body = ascii "lt" then some [0x3C]
  else if body = ascii "gt" then some [0x3E]
  else if body = ascii "amp" then some [0x26]
  else if body = ascii "quot" then some [0x22]
  else if body = ascii "apos" then some [0x27]
  else
    match body with
    | 0x23 :: 0x78 :: hs => if hs ≠ [] ∧ hs.all isHex then charRef (hexVal hs) else none
    | 0x23 :: ds => if ds ≠ [] ∧ ds.all isDigit then charRef (decVal ds) else none
    | _ => none

/-- A reference behind its ampersand. -/
def reference (s : Bytes) : Option (Bytes × Bytes) :=
  match breakAt [0x3B] s with
  | none => none
  | some (body, t) => (entity body).map fun bs => (bs, t)

/-- The value of an attribute behind its opening quote. -/
def attrValue (quote : UInt8) : Nat → Bytes → Option (Bytes × Bytes)
  | 0, _ | _, [] => none
  | n + 1, b :: s =>
    if b = quote then some ([], s)
    else if b = 0x3C then none
    else if b = 0x26 then
      match reference s with
      | none => none
      | some (bs, t) => (attrValue quote n t).map fun r => (bs ++ r.1, r.2)
    else if b = 0x0D ∧ s.head? = some 0x0A then attrValue quote n s
    else if isXmlByte b then
      (attrValue quote n s).map fun r => ((if isWhite b then 0x20 else b) :: r.1, r.2)
    else none

/-- One attribute, without the white space before it. -/
def attr (s : Bytes) : Option ((Bytes × Bytes) × Bytes) :=
  match scanName s with
  | none => none
  | some (name, t) =>
    match t.dropWhile isWhite with
    | 0x3D :: u =>
      match u.dropWhile isWhite with
      | quote :: v =>
        if quote = 0x22 ∨ quote = 0x27 then
          (attrValue quote (v.length + 1) v).map fun r => ((name, r.1), r.2)
        else none
      | [] => none
    | _ => none

/-- The attributes of a start tag up to its end, and whether it is an empty-element tag. -/
def attrs : Nat → Bytes → Option (List (Bytes × Bytes) × Bool × Bytes)
  | 0, _ => none
  | n + 1, s =>
    match s.dropWhile isWhite with
    | 0x3E :: t => some ([], false, t)
    | 0x2F :: 0x3E :: t => some ([], true, t)
    | t =>
      if t.length = s.length then none
      else
        match attr t with
        | none => none
        | some (a, u) =>
          match attrs n u with
          | none => none
          | some (as, last, v) =>
            if a.1 ∈ as.map (·.1) then none else some (a :: as, last, v)

/-- Line ends as the reader passes them on. -/
def lineEnds : Bytes → Bytes
  | [] => []
  | [b] => [if b = 0x0D then 0x0A else b]
  | b :: c :: s =>
    if b = 0x0D then
      if c = 0x0A then 0x0A :: lineEnds s else 0x0A :: lineEnds (c :: s)
    else b :: lineEnds (c :: s)

def comment (s : Bytes) : Option (List Token × Bytes) :=
  match breakAt (ascii "--") s with
  | some (body, 0x3E :: t) => if body.all isXmlByte then some ([], t) else none
  | _ => none

def cdata (s : Bytes) : Option (List Token × Bytes) :=
  match breakAt (ascii "]]>") s with
  | some (body, t) => if body.all isXmlByte then some ((lineEnds body).map .char, t) else none
  | none => none

def instruction (s : Bytes) : Option (List Token × Bytes) :=
  match scanName s with
  | none => none
  | some (target, t) =>
    if strcasecmpEq target (ascii "xml") then none
    else
      match breakAt (ascii "?>") t with
      | some (body, u) => if body.all isXmlByte then some ([], u) else none
      | none => none

def endTag (s : Bytes) : Option (List Token × Bytes) :=
  match scanName s with
  | none => none
  | some (name, t) =>
    match t.dropWhile isWhite with
    | 0x3E :: u => some ([.close name], u)
    | _ => none

def startTag (s : Bytes) : Option (List Token × Bytes) :=
  match scanName s with
  | none => none
  | some (name, t) =>
    match attrs (t.length + 1) t with
    | none => none
    | some (as, last, u) => some ([if last then .empty name as else .start name as], u)

/-- Markup behind its opening bracket. -/
def markup (s : Bytes) : Option (List Token × Bytes) :=
  if (ascii "!--").isPrefixOf s then comment (s.drop 3)
  else if (ascii "![CDATA[").isPrefixOf s then cdata (s.drop 8)
  else
    match s with
    | 0x3F :: t => instruction t
    | 0x2F :: t => endTag t
    | s => startTag s

def cdataEnd : Bytes := [0x5D, 0x5D, 0x3E]

/-- What stands at the front of a text. -/
def token : Bytes → Option (List Token × Bytes)
  | [] => none
  | b :: s =>
    if b = 0x3C then markup s
    else if b = 0x26 then (reference s).map fun r => (r.1.map .char, r.2)
    else if b = 0x0D then some ([.char 0x0A], if s.head? = some 0x0A then s.drop 1 else s)
    else if cdataEnd.isPrefixOf (b :: s) then none
    else if isXmlByte b then some ([.char b], s)
    else none

def readFuel : Nat → Bytes → Option (List Token)
  | _, [] => some []
  | 0, _ :: _ => none
  | n + 1, b :: s =>
    match token (b :: s) with
    | none => none
    | some (ts, t) => (readFuel n t).map (ts ++ ·)

theorem readFuel_cons (n : Nat) (b : UInt8) (s : Bytes) :
    readFuel (n + 1) (b :: s) =
      match token (b :: s) with
      | none => none
      | some (ts, t) => (readFuel n t).map (ts ++ ·) := rfl

theorem readFuel_some {n : Nat} {s t : Bytes} {ts : List Token} (h : token s = some (ts, t))
    (hs : s ≠ []) : readFuel (n + 1) s = (readFuel n t).map (ts ++ ·) := by
  obtain ⟨b, s, rfl⟩ := List.exists_cons_of_ne_nil hs
  rw [readFuel_cons, h]

theorem readFuel_none {n : Nat} {s : Bytes} (h : token s = none) (hs : s ≠ []) :
    readFuel (n + 1) s = none := by
  obtain ⟨b, s, rfl⟩ := List.exists_cons_of_ne_nil hs
  rw [readFuel_cons, h]

/-- The tokens of a text; every token takes a byte. -/
def read (s : Bytes) : Option (List Token) := readFuel s.length s

/-- One element, with white space around it, and matching tags; `seen` says whether it is over. -/
def nested : List Bytes → Bool → List Token → Bool
  | [], seen, [] => seen
  | _ :: _, _, [] => false
  | [], seen, .char b :: ts => isWhite b && nested [] seen ts
  | [], seen, .start name _ :: ts => !seen && nested [name] true ts
  | [], seen, .empty _ _ :: ts => !seen && nested [] true ts
  | [], _, .close _ :: _ => false
  | name :: stack, seen, .char _ :: ts => nested (name :: stack) seen ts
  | name :: stack, seen, .start inner _ :: ts => nested (inner :: name :: stack) seen ts
  | name :: stack, seen, .empty _ _ :: ts => nested (name :: stack) seen ts
  | name :: stack, seen, .close other :: ts => name == other && nested stack seen ts

/-- The text behind an XML declaration. -/
def prolog (s : Bytes) : Option Bytes :=
  if (ascii "<?xml ").isPrefixOf s then (breakAt (ascii "?>") s).map (·.2) else some s

/-- The tokens of a well-formed document behind its declaration. -/
def parse (doc : Bytes) : Option (List Token) :=
  match (prolog doc).bind read with
  | some ts => if nested [] false ts then some ts else none
  | none => none

/-! ## What tokens weigh

Every byte weighs one and a special byte one more. The tokens the reader finds weigh no more than
the text they were read from, and less if a character needed a reference or a CDATA section. -/

def weigh (s : Bytes) : Nat := s.length + s.countP isSpecial

def attrsWeight (as : List (Bytes × Bytes)) : Nat :=
  (as.map fun a => a.1.length + a.2.length + 4).sum

def Token.weight : Token → Nat
  | .start name as => name.length + attrsWeight as + 3
  | .empty name as => name.length + attrsWeight as + 4
  | .close name => name.length + 4
  | .char b => weigh [b]

def weight (ts : List Token) : Nat := (ts.map Token.weight).sum

@[simp] theorem weigh_nil : weigh [] = 0 := rfl

theorem weigh_cons (b : UInt8) (s : Bytes) : weigh (b :: s) = weigh [b] + weigh s := by
  simp only [weigh, List.length_cons, List.length_nil, List.countP_cons, List.countP_nil]
  omega

theorem weigh_append (s t : Bytes) : weigh (s ++ t) = weigh s + weigh t := by
  simp only [weigh, List.length_append, List.countP_append]
  omega

theorem length_le_weigh (s : Bytes) : s.length ≤ weigh s := Nat.le_add_right _ _

theorem weigh_plain {b : UInt8} (h : isSpecial b = false) : weigh [b] = 1 := by
  simp [weigh, h]

theorem weigh_eq_length {s : Bytes} (h : ∀ b ∈ s, isSpecial b = false) : weigh s = s.length := by
  have : s.countP isSpecial = 0 := List.countP_eq_zero.mpr fun b hb => by simp [h b hb]
  rw [weigh, this, Nat.add_zero]

theorem one_le_weigh (b : UInt8) : 1 ≤ weigh [b] := length_le_weigh [b]

theorem weigh_le_two (b : UInt8) : weigh [b] ≤ 2 := by
  simp only [weigh, List.length_singleton, List.countP_cons, List.countP_nil]
  split <;> omega

theorem weigh_suffix {s t : Bytes} (h : t <:+ s) : weigh t ≤ weigh s := by
  obtain ⟨u, rfl⟩ := h
  rw [weigh_append]
  omega

theorem weigh_dropWhile (p : UInt8 → Bool) (s : Bytes) : weigh (s.dropWhile p) ≤ weigh s :=
  weigh_suffix (List.dropWhile_suffix p)

theorem weigh_drop (n : Nat) (s : Bytes) : weigh (s.drop n) ≤ weigh s :=
  weigh_suffix (List.drop_suffix n s)

theorem weight_append (ts us : List Token) : weight (ts ++ us) = weight ts + weight us := by
  simp [weight]

theorem weight_chars (s : Bytes) : weight (s.map .char) = weigh s := by
  induction s with
  | nil => rfl
  | cons b s ih =>
    have hcons : weight (List.map Token.char (b :: s)) = weigh [b] + weight (s.map .char) := rfl
    rw [hcons, ih, ← weigh_cons]

theorem breakAt_spec {pat s a t : Bytes} (h : breakAt pat s = some (a, t)) :
    s = a ++ (pat ++ t) := by
  induction s generalizing a with
  | nil => cases h
  | cons b s ih =>
    rw [breakAt] at h
    split at h
    next hp =>
      cases h
      obtain ⟨u, hu⟩ := List.isPrefixOf_iff_prefix.mp hp
      rw [← hu, List.drop_left]
      rfl
    next =>
      obtain ⟨⟨a', t'⟩, hr, he⟩ := Option.map_eq_some_iff.mp h
      cases he
      rw [ih hr]
      rfl

theorem scanName_spec {s name t : Bytes} (h : scanName s = some (name, t)) :
    s = name ++ t ∧ 1 ≤ name.length := by
  unfold scanName at h
  split at h
  · cases h
  next b name' hn =>
    split at h
    · cases h
      refine ⟨?_, Nat.le_add_left 1 _⟩
      rw [← hn, List.takeWhile_append_dropWhile]
    · cases h

theorem isSpecial_high {n : Nat} (h : 0x80 ≤ n) (hn : n < 256) :
    isSpecial (UInt8.ofNat n) = false := by
  have hv : (UInt8.ofNat n).toNat = n := by
    rw [UInt8.toNat_ofNat']
    omega
  have hne : ∀ k : UInt8, k.toNat < 0x80 → (UInt8.ofNat n == k) = false := fun k hk => by
    rw [beq_eq_false_iff_ne]
    rintro rfl
    omega
  rw [isSpecial, hne 0x3C (by decide), hne 0x26 (by decide), hne 0x0D (by decide)]
  rfl

theorem weigh_utf8Encode {n : Nat} (h : isXmlChar n = true) : weigh (utf8Encode n) ≤ 4 := by
  have hn : n ≤ 0x10FFFF := by
    simp only [isXmlChar, Bool.or_eq_true, Bool.and_eq_true, beq_iff_eq, decide_eq_true_eq] at h
    omega
  have cons : ∀ {k : Nat} {t : Bytes}, 0x80 ≤ k → k < 256 → (∀ b ∈ t, isSpecial b = false) →
      ∀ b ∈ UInt8.ofNat k :: t, isSpecial b = false := fun hk hk' ht =>
    List.forall_mem_cons.mpr ⟨isSpecial_high hk hk', ht⟩
  have nil : ∀ b ∈ ([] : Bytes), isSpecial b = false := by simp
  unfold utf8Encode
  split
  · exact (weigh_le_two _).trans (by decide)
  split
  · rw [weigh_eq_length (cons (by omega) (by omega) (cons (by omega) (by omega) nil))]
    simp
  split
  · rw [weigh_eq_length (cons (by omega) (by omega) (cons (by omega) (by omega)
      (cons (by omega) (by omega) nil)))]
    simp
  · rw [weigh_eq_length (cons (by omega) (by omega) (cons (by omega) (by omega)
      (cons (by omega) (by omega) (cons (by omega) (by omega) nil))))]
    simp

theorem charRef_spec {n : Nat} {bs : Bytes} (h : charRef n = some bs) : weigh bs ≤ 4 := by
  unfold charRef at h
  split at h
  next hn =>
    cases h
    exact weigh_utf8Encode hn
  · cases h

theorem entity_spec {body bs : Bytes} (h : entity body = some bs) :
    2 ≤ body.length ∧ weigh bs ≤ 4 := by
  have one : ∀ b : UInt8, weigh [b] ≤ 4 := fun b => (weigh_le_two b).trans (by decide)
  unfold entity at h
  split at h
  next hb =>
    cases h
    exact ⟨by rw [hb]; decide, one _⟩
  split at h
  next hb =>
    cases h
    exact ⟨by rw [hb]; decide, one _⟩
  split at h
  next hb =>
    cases h
    exact ⟨by rw [hb]; decide, one _⟩
  split at h
  next hb =>
    cases h
    exact ⟨by rw [hb]; decide, one _⟩
  split at h
  next hb =>
    cases h
    exact ⟨by rw [hb]; decide, one _⟩
  split at h
  next hs =>
    split at h
    · exact ⟨by simp, charRef_spec h⟩
    · cases h
  next ds _ =>
    split at h
    next hds =>
      have := List.length_pos_of_ne_nil hds.1
      exact ⟨by simp only [List.length_cons]; omega, charRef_spec h⟩
    · cases h
  · cases h

theorem reference_spec {s bs t : Bytes} (h : reference s = some (bs, t)) :
    weigh bs ≤ 4 ∧ weigh t + 3 ≤ weigh s := by
  unfold reference at h
  split at h
  · cases h
  next body u hb =>
    obtain ⟨bs', he, hr⟩ := Option.map_eq_some_iff.mp h
    cases hr
    obtain ⟨hlen, hw⟩ := entity_spec he
    refine ⟨hw, ?_⟩
    have hs := length_le_weigh body
    have hsemi := one_le_weigh 0x3B
    rw [breakAt_spec hb, weigh_append, weigh_append]
    omega

theorem attrValue_spec {quote : UInt8} {n : Nat} {s value t : Bytes}
    (h : attrValue quote n s = some (value, t)) : value.length + 1 + weigh t ≤ weigh s := by
  induction n generalizing s value with
  | zero => cases h
  | succ n ih =>
    cases s with
    | nil => cases h
    | cons b s =>
      have hb := one_le_weigh b
      rw [attrValue] at h
      rw [weigh_cons]
      split at h
      · cases h
        simpa using hb
      split at h
      · cases h
      split at h
      · split at h
        · cases h
        next bs u hr =>
          obtain ⟨⟨value', t'⟩, hv, he⟩ := Option.map_eq_some_iff.mp h
          cases he
          have hrec := ih hv
          dsimp only at hrec ⊢
          obtain ⟨hbs, hu⟩ := reference_spec hr
          have hlen := length_le_weigh bs
          rw [List.length_append]
          omega
      split at h
      · have hrec := ih h
        omega
      split at h
      · obtain ⟨⟨value', t'⟩, hv, he⟩ := Option.map_eq_some_iff.mp h
        cases he
        have hrec := ih hv
        dsimp only at hrec ⊢
        rw [List.length_cons]
        omega
      · cases h

theorem attr_spec {s name value t : Bytes} (h : attr s = some ((name, value), t)) :
    name.length + value.length + 3 + weigh t ≤ weigh s := by
  unfold attr at h
  split at h
  · cases h
  next name' u hn =>
    obtain ⟨rfl, -⟩ := scanName_spec hn
    have hu := weigh_dropWhile isWhite u
    split at h
    next v hv =>
      rw [hv, weigh_cons] at hu
      have hw := weigh_dropWhile isWhite v
      split at h
      next quote w hq =>
        rw [hq, weigh_cons] at hw
        split at h
        · obtain ⟨⟨value', t'⟩, hval, he⟩ := Option.map_eq_some_iff.mp h
          cases he
          dsimp only
          have hrec := attrValue_spec hval
          have h₁ := one_le_weigh quote
          have h₂ := one_le_weigh 0x3D
          have h₃ := length_le_weigh name
          rw [weigh_append]
          omega
        · cases h
      · cases h
    · cases h

theorem attrs_spec {n : Nat} {s t : Bytes} {as : List (Bytes × Bytes)} {last : Bool}
    (h : attrs n s = some (as, last, t)) :
    attrsWeight as + (if last then 2 else 1) + weigh t ≤ weigh s := by
  induction n generalizing s as with
  | zero => cases h
  | succ n ih =>
    rw [attrs] at h
    have hs := weigh_dropWhile isWhite s
    split at h
    next u hu =>
      cases h
      rw [hu, weigh_cons] at hs
      have := one_le_weigh 0x3E
      simp only [attrsWeight, List.map_nil, List.sum_nil, Bool.false_eq_true, if_false]
      omega
    next u hu =>
      cases h
      rw [hu, weigh_cons, weigh_cons 0x3E] at hs
      have h₁ := one_le_weigh 0x3E
      have h₂ := one_le_weigh 0x2F
      simp only [attrsWeight, List.map_nil, List.sum_nil, if_true]
      omega
    next u =>
      split at h
      · cases h
      next hwhite =>
        split at h
        · cases h
        next a v ha =>
          split at h
          · cases h
          next as' last' w hrec =>
            split at h
            · cases h
            · cases h
              have h₁ := ih hrec
              have h₂ := attr_spec ha
              -- the white space before the attribute weighs something
              have h₃ : weigh (s.dropWhile isWhite) + 1 ≤ weigh s := by
                have hsplit := List.takeWhile_append_dropWhile (p := isWhite) (l := s)
                have hlen : 1 ≤ (s.takeWhile isWhite).length := by
                  have := congrArg List.length hsplit
                  rw [List.length_append] at this
                  omega
                have := length_le_weigh (s.takeWhile isWhite)
                have hw := weigh_append (s.takeWhile isWhite) (s.dropWhile isWhite)
                rw [hsplit] at hw
                omega
              simp only [attrsWeight, List.map_cons, List.sum_cons] at h₁ ⊢
              omega

theorem weigh_lineEnds (s : Bytes) : weigh (lineEnds s) ≤ weigh s := by
  have swap : ∀ b : UInt8, weigh [if b = 0x0D then 0x0A else b] ≤ weigh [b] := by
    intro b
    split
    next hb =>
      rw [hb]
      decide
    · exact le_rfl
  induction s using lineEnds.induct with
  | case1 => exact le_rfl
  | case2 b => exact swap b
  | case3 s ih =>
    rw [lineEnds, if_pos rfl, if_pos rfl, weigh_cons, weigh_cons 0x0D, weigh_cons 0x0A s]
    have := weigh_plain (show isSpecial 0x0A = false by decide)
    omega
  | case4 c s hc ih =>
    rw [lineEnds, if_pos rfl, if_neg hc, weigh_cons, weigh_cons 0x0D]
    have h₁ := weigh_plain (show isSpecial 0x0A = false by decide)
    have h₂ := one_le_weigh 0x0D
    omega
  | case5 b c s hb ih =>
    rw [lineEnds, if_neg hb, weigh_cons b (lineEnds _), weigh_cons b (c :: s)]
    omega

/-- The tokens of a step and the rest of the text weigh no more than the text. They weigh as much
only if every character stands for itself. -/
def Light (s : Bytes) (ts : List Token) (t : Bytes) : Prop :=
  weight ts + weigh t ≤ weigh s ∧
    (weight ts + weigh t = weigh s → ∀ b, .char b ∈ ts → isSpecial b = false)

theorem light_of_lt {s t : Bytes} {ts : List Token} (h : weight ts + weigh t < weigh s) :
    Light s ts t := ⟨h.le, fun he => absurd he h.ne⟩

theorem weigh_open (s : Bytes) : weigh (0x3C :: s) = weigh s + 2 := by
  rw [weigh_cons, show weigh [0x3C] = 2 from rfl]
  omega

theorem startTag_spec {s t : Bytes} {ts : List Token} (h : startTag s = some (ts, t)) :
    Light (0x3C :: s) ts t := by
  unfold startTag at h
  split at h
  · cases h
  next name u hn =>
    split at h
    · cases h
    next as last v ha =>
      cases h
      obtain ⟨rfl, -⟩ := scanName_spec hn
      have h₁ := length_le_weigh name
      have h₂ := attrs_spec ha
      rw [Light, weigh_open, weigh_append]
      cases last with
      | false =>
        refine ⟨?_, by simp⟩
        simp only [Bool.false_eq_true, if_false, weight, Token.weight, List.map_cons, List.map_nil,
          List.sum_cons, List.sum_nil] at h₂ ⊢
        omega
      | true =>
        refine ⟨?_, by simp⟩
        simp only [if_true, weight, Token.weight, List.map_cons, List.map_nil, List.sum_cons,
          List.sum_nil] at h₂ ⊢
        omega

theorem endTag_spec {s t : Bytes} {ts : List Token} (h : endTag s = some (ts, t)) :
    Light (0x3C :: 0x2F :: s) ts t := by
  unfold endTag at h
  split at h
  · cases h
  next name u hn =>
    split at h
    next v hv =>
      cases h
      obtain ⟨rfl, -⟩ := scanName_spec hn
      have h₁ := length_le_weigh name
      have h₂ := weigh_dropWhile isWhite u
      have h₃ := one_le_weigh 0x3E
      have h₄ := one_le_weigh 0x2F
      rw [hv, weigh_cons] at h₂
      refine ⟨?_, by simp⟩
      rw [weigh_open, weigh_cons, weigh_append]
      simp only [weight, Token.weight, List.map_cons, List.map_nil, List.sum_cons, List.sum_nil]
      omega
    · cases h

theorem silent_spec {s t u : Bytes} (hs : weigh t ≤ weigh s) (hu : weigh u ≤ weigh t) :
    Light (0x3C :: s) [] u := by
  refine light_of_lt ?_
  rw [weigh_open]
  simp only [weight, List.map_nil, List.sum_nil]
  omega

theorem weigh_breakAt {pat s a t : Bytes} (h : breakAt pat s = some (a, t)) :
    weigh a + weigh t + weigh pat = weigh s := by
  rw [breakAt_spec h, weigh_append, weigh_append]
  omega

theorem markup_spec {s t : Bytes} {ts : List Token} (h : markup s = some (ts, t)) :
    Light (0x3C :: s) ts t := by
  unfold markup at h
  split at h
  · unfold comment at h
    split at h
    next body u hb =>
      split at h
      · cases h
        have h₁ := weigh_breakAt hb
        have h₂ := weigh_cons 0x3E t
        have h₃ := weigh_drop 3 s
        exact silent_spec h₃ (by omega)
      · cases h
    · cases h
  split at h
  · unfold cdata at h
    split at h
    next body u hb =>
      split at h
      · cases h
        have h₁ := weigh_breakAt hb
        have h₂ := weigh_drop 8 s
        have h₃ := weigh_lineEnds body
        refine light_of_lt ?_
        rw [weight_chars, weigh_open]
        omega
      · cases h
    · cases h
  split at h
  next u =>
    unfold instruction at h
    split at h
    · cases h
    next target v hn =>
      split at h
      · cases h
      split at h
      next body w hb =>
        split at h
        · cases h
          obtain ⟨rfl, -⟩ := scanName_spec hn
          have h₁ := weigh_breakAt hb
          have h₂ := weigh_append target v
          have h₃ := weigh_cons 0x3F (target ++ v)
          exact @silent_spec _ v _ (by omega) (by omega)
        · cases h
      · cases h
  · exact endTag_spec h
  · exact startTag_spec h

/-- **What a step of the reader takes from the weight of the text.** -/
theorem token_spec {s t : Bytes} {ts : List Token} (h : token s = some (ts, t)) :
    Light s ts t := by
  cases s with
  | nil => cases h
  | cons b s =>
    rw [token] at h
    split at h
    next hb =>
      rw [hb]
      exact markup_spec h
    split at h
    next hb =>
      obtain ⟨⟨bs, u⟩, hr, he⟩ := Option.map_eq_some_iff.mp h
      cases he
      obtain ⟨h₁, h₂⟩ := reference_spec hr
      refine light_of_lt ?_
      rw [hb, weight_chars, weigh_cons, show weigh [0x26] = 2 from rfl]
      dsimp only
      omega
    split at h
    next hb =>
      cases h
      refine light_of_lt ?_
      have h₁ : weigh (if s.head? = some 0x0A then s.drop 1 else s) ≤ weigh s := by
        split
        · exact weigh_drop 1 s
        · exact le_rfl
      rw [hb, weigh_cons, show weigh [0x0D] = 2 from rfl]
      simp only [weight, Token.weight, List.map_cons, List.map_nil, List.sum_cons, List.sum_nil,
        show weigh [0x0A] = 1 from rfl]
      omega
    next hlt hamp hcr =>
    split at h
    · cases h
    split at h
    · cases h
      have hplain : isSpecial b = false := by simp [isSpecial, hlt, hamp, hcr]
      refine ⟨?_, fun _ b' hb' => ?_⟩
      · rw [weigh_cons]
        simp [weight, Token.weight]
      · simp only [List.mem_singleton, Token.char.injEq] at hb'
        rw [hb', hplain]
    · cases h

theorem readFuel_spec {n : Nat} {s : Bytes} {ts : List Token} (h : readFuel n s = some ts) :
    Light s ts [] := by
  induction n generalizing s ts with
  | zero =>
    cases s with
    | nil =>
      cases h
      exact ⟨le_rfl, by simp⟩
    | cons b s => cases h
  | succ n ih =>
    cases s with
    | nil =>
      cases h
      exact ⟨le_rfl, by simp⟩
    | cons b s =>
      rw [readFuel] at h
      split at h
      · cases h
      next us t hu =>
        obtain ⟨vs, hv, rfl⟩ := Option.map_eq_some_iff.mp h
        obtain ⟨h₁, hp₁⟩ := token_spec hu
        obtain ⟨h₂, hp₂⟩ := ih hv
        rw [weigh_nil] at h₂ hp₂
        rw [Light, weight_append, weigh_nil]
        refine ⟨by omega, fun he b' hb' => ?_⟩
        rcases List.mem_append.mp hb' with hm | hm
        · exact hp₁ (by omega) b' hm
        · exact hp₂ (by omega) b' hm

end FlowAlarm.Xml
