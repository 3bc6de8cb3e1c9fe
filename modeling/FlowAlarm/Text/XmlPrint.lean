import FlowAlarm.Text.Xml

/-!
# XML written without escapes

`print` writes tokens as string formatting does, with the characters of texts
as they are. `read_print_iff` says when the reader gets the tokens back, and
`clean_text` takes the condition apart text by text.
-/

namespace FlowAlarm.Xml

open FlowAlarm.Text

/-! ## Writing without escapes -/

def printAttrs : List (Bytes × Bytes) → Bytes
  | [] => []
  | (name, value) :: as => 0x20 :: (name ++ 0x3D :: 0x22 :: (value ++ 0x22 :: printAttrs as))

def printToken : Token → Bytes
  | .start name as => 0x3C :: (name ++ (printAttrs as ++ [0x3E]))
  | .empty name as => 0x3C :: (name ++ (printAttrs as ++ [0x2F, 0x3E]))
  | .close name => 0x3C :: 0x2F :: (name ++ [0x3E])
  | .char b => [b]

def print (ts : List Token) : Bytes := ts.flatMap printToken

/-! ## Reading what was written -/

def ProperName (name : Bytes) : Prop := name.all isNameByte = true ∧ ∃ b ∈ name.head?, isNameStart b

/-- A byte that an attribute value in double quotes carries unchanged. -/
def isAttrByte (b : UInt8) : Bool :=
  isXmlByte b && b != 0x22 && b != 0x3C && b != 0x26 && (!isWhite b || b == 0x20)

structure ProperAttrs (as : List (Bytes × Bytes)) : Prop where
  names : ∀ a ∈ as, ProperName a.1
  values : ∀ a ∈ as, a.2.all isAttrByte = true
  nodup : (as.map (·.1)).Nodup

/-- A token that has a text at all. -/
def Token.Proper : Token → Prop
  | .start name as | .empty name as => ProperName name ∧ ProperAttrs as
  | .close name => ProperName name
  | .char b => isXmlByte b = true

/-- No text character begins the end of a CDATA section. -/
def textOk : List Token → Bool
  | [] => true
  | .char b :: ts => !cdataEnd.isPrefixOf (b :: print ts) && textOk ts
  | _ :: ts => textOk ts

theorem nameByte_cases {b : UInt8} (h : isNameByte b = true) :
    isSpecial b = false ∧ isWhite b = false ∧ b ≠ 0x21 ∧ b ≠ 0x2F ∧ b ≠ 0x3D ∧ b ≠ 0x3E ∧
      b ≠ 0x3F := by
  have hall : ∀ n < 256, isNameByte (UInt8.ofNat n) = true →
      isSpecial (UInt8.ofNat n) = false ∧ isWhite (UInt8.ofNat n) = false ∧
        UInt8.ofNat n ≠ 0x21 ∧ UInt8.ofNat n ≠ 0x2F ∧ UInt8.ofNat n ≠ 0x3D ∧
          UInt8.ofNat n ≠ 0x3E ∧ UInt8.ofNat n ≠ 0x3F := by
    decide +kernel
  have hb : UInt8.ofNat b.toNat = b := UInt8.ofNat_toNat
  simpa only [hb] using hall b.toNat b.toNat_lt (by rw [hb]; exact h)

theorem ProperName.cons {name : Bytes} (h : ProperName name) :
    ∃ b t, name = b :: t ∧ isNameStart b = true ∧ isNameByte b = true := by
  obtain ⟨hall, b, hb, hstart⟩ := h
  cases name with
  | nil => cases hb
  | cons c t =>
    cases hb
    exact ⟨_, t, rfl, hstart, List.all_eq_true.mp hall _ List.mem_cons_self⟩

theorem scanName_print {name : Bytes} (h : ProperName name) {c : UInt8}
    (hc : isNameByte c = false) (rest : Bytes) :
    scanName (name ++ c :: rest) = some (name, c :: rest) := by
  have hall := List.all_eq_true.mp h.1
  obtain ⟨b, t, rfl, hstart, -⟩ := h.cons
  have htake : (b :: t ++ c :: rest).takeWhile isNameByte = b :: t := by
    rw [List.takeWhile_append_of_pos hall, List.takeWhile_cons_of_neg (by simp [hc]),
      List.append_nil]
  have hdrop : (b :: t ++ c :: rest).dropWhile isNameByte = c :: rest := by
    rw [List.dropWhile_append_of_pos hall, List.dropWhile_cons_of_neg (by simp [hc])]
  simp only [scanName, htake, hdrop, hstart, if_true]

theorem attrValue_print {value : Bytes} (h : value.all isAttrByte = true) {n : Nat}
    (hn : value.length < n) (rest : Bytes) :
    attrValue 0x22 n (value ++ 0x22 :: rest) = some (value, rest) := by
  induction value generalizing n with
  | nil =>
    cases n with
    | zero => cases hn
    | succ n => simp [attrValue]
  | cons b t ih =>
    cases n with
    | zero => cases hn
    | succ n =>
      rw [List.all_cons, Bool.and_eq_true] at h
      obtain ⟨hb, ht⟩ := h
      have hrec := ih ht (Nat.lt_of_succ_lt_succ hn)
      simp only [isAttrByte, Bool.and_eq_true, Bool.or_eq_true, bne_iff_ne, ne_eq,
        Bool.not_eq_true', beq_iff_eq] at hb
      obtain ⟨⟨⟨⟨hx, hq⟩, hlt⟩, hamp⟩, hw⟩ := hb
      have hcr : b ≠ 0x0D := by
        rintro rfl
        revert hw
        decide
      have hkeep : (if isWhite b then 0x20 else b) = b := by
        rcases hw with hw | hw
        · simp [hw]
        · simp [hw]
      rw [List.cons_append, attrValue, if_neg hq, if_neg hlt, if_neg hamp,
        if_neg (fun h => hcr h.1), if_pos hx, hrec, hkeep]
      rfl

theorem attr_print {a : Bytes × Bytes} (hn : ProperName a.1) (hv : a.2.all isAttrByte = true)
    (rest : Bytes) :
    attr (a.1 ++ 0x3D :: 0x22 :: (a.2 ++ 0x22 :: rest)) = some (a, rest) := by
  unfold attr
  rw [scanName_print hn (by decide)]
  have hlen : a.2.length < (a.2 ++ 0x22 :: rest).length + 1 := by
    rw [List.length_append]
    omega
  have hq : isWhite 0x22 = false := rfl
  have he : isWhite 0x3D = false := rfl
  simp only [List.dropWhile_cons, hq, he, Bool.false_eq_true, if_false, true_or, if_true,
    attrValue_print hv hlen, Option.map_some]

/-- The end of a tag. -/
def tagEnd (last : Bool) : Bytes := if last then [0x2F, 0x3E] else [0x3E]

theorem attrs_print {as : List (Bytes × Bytes)} (h : ProperAttrs as) {n : Nat}
    (hn : as.length < n) (last : Bool) (rest : Bytes) :
    attrs n (printAttrs as ++ (tagEnd last ++ rest)) = some (as, last, rest) := by
  induction as generalizing n with
  | nil =>
    cases n with
    | zero => cases hn
    | succ n =>
      cases last with
      | false =>
        have he : isWhite 0x3E = false := rfl
        simp [attrs, printAttrs, tagEnd, he]
      | true =>
        have he : isWhite 0x2F = false := rfl
        simp [attrs, printAttrs, tagEnd, he]
  | cons a as ih =>
    cases n with
    | zero => cases hn
    | succ n =>
      obtain ⟨hname, hnames⟩ := List.forall_mem_cons.mp h.names
      obtain ⟨hval, hvals⟩ := List.forall_mem_cons.mp h.values
      have hnodup := h.nodup
      rw [List.map_cons, List.nodup_cons] at hnodup
      have hrec := ih ⟨hnames, hvals, hnodup.2⟩ (Nat.lt_of_succ_lt_succ hn)
      obtain ⟨b, t, hb, -, hbyte⟩ := hname.cons
      have hnb := nameByte_cases hbyte
      have htext : printAttrs (a :: as) ++ (tagEnd last ++ rest) =
          0x20 :: (a.1 ++ 0x3D :: 0x22 :: (a.2 ++ 0x22 ::
            (printAttrs as ++ (tagEnd last ++ rest)))) := by
        obtain ⟨x, y⟩ := a
        simp [printAttrs]
      have hattr := attr_print hname hval (printAttrs as ++ (tagEnd last ++ rest))
      have hdrop : (0x20 :: (a.1 ++ 0x3D :: 0x22 :: (a.2 ++ 0x22 ::
          (printAttrs as ++ (tagEnd last ++ rest))))).dropWhile isWhite =
          a.1 ++ 0x3D :: 0x22 :: (a.2 ++ 0x22 :: (printAttrs as ++ (tagEnd last ++ rest))) := by
        rw [List.dropWhile_cons_of_pos rfl, hb, List.cons_append,
          List.dropWhile_cons_of_neg (by simp [hnb.2.1])]
      rw [htext, attrs, hdrop]
      split
      next u hu =>
        rw [hb] at hu
        simp only [List.cons_append, List.cons.injEq] at hu
        exact absurd hu.1 hnb.2.2.2.2.2.1
      next u hu =>
        rw [hb] at hu
        simp only [List.cons_append, List.cons.injEq] at hu
        exact absurd hu.1 hnb.2.2.2.1
      · rw [if_neg (by simp), hattr]
        simp only [hrec, if_neg hnodup.1]

/-- Markup that begins with a name is a start tag. -/
theorem markup_name {b : UInt8} (h : isNameByte b = true) (s : Bytes) :
    markup (b :: s) = startTag (b :: s) := by
  have hb := nameByte_cases h
  have h₁ : (ascii "!--").isPrefixOf (b :: s) = false := by
    simp [show ascii "!--" = 0x21 :: ascii "--" from rfl, List.isPrefixOf, Ne.symm hb.2.2.1]
  have h₂ : (ascii "![CDATA[").isPrefixOf (b :: s) = false := by
    simp [show ascii "![CDATA[" = 0x21 :: ascii "[CDATA[" from rfl, List.isPrefixOf,
      Ne.symm hb.2.2.1]
  unfold markup
  simp only [h₁, h₂, Bool.false_eq_true, if_false]
  split
  next heq =>
    simp only [List.cons.injEq] at heq
    exact absurd heq.1 hb.2.2.2.2.2.2
  next heq =>
    simp only [List.cons.injEq] at heq
    exact absurd heq.1 hb.2.2.2.1
  · rfl

theorem printAttrs_end {as : List (Bytes × Bytes)} (last : Bool) (rest : Bytes) :
    ∃ c t, printAttrs as ++ (tagEnd last ++ rest) = c :: t ∧ isNameByte c = false ∧
      as.length < t.length + 1 + 1 := by
  have hlen : as.length ≤ (printAttrs as).length := by
    induction as with
    | nil => exact Nat.zero_le _
    | cons a as ih =>
      obtain ⟨x, y⟩ := a
      simp only [printAttrs, List.length_cons, List.length_append]
      omega
  cases as with
  | nil =>
    cases last with
    | false => exact ⟨0x3E, rest, rfl, by decide, Nat.succ_pos _⟩
    | true => exact ⟨0x2F, 0x3E :: rest, rfl, by decide, Nat.succ_pos _⟩
  | cons a as =>
    obtain ⟨x, y⟩ := a
    refine ⟨0x20, _, rfl, by decide, ?_⟩
    simp only [printAttrs, List.append_eq, List.length_cons, List.length_append] at hlen ⊢
    omega

theorem startTag_print {name : Bytes} {as : List (Bytes × Bytes)} (hn : ProperName name)
    (ha : ProperAttrs as) (last : Bool) (rest : Bytes) :
    startTag (name ++ (printAttrs as ++ (tagEnd last ++ rest))) =
      some ([if last then .empty name as else .start name as], rest) := by
  obtain ⟨c, t, ht, hc, hlen⟩ := @printAttrs_end as last rest
  have hattrs := @attrs_print as ha (t.length + 1 + 1) hlen last rest
  rw [ht] at hattrs ⊢
  rw [startTag, scanName_print hn hc]
  simp only [List.length_cons, hattrs]

/-- **A token read back.** -/
theorem token_print {t : Token} (h : t.Proper) (rest : Bytes)
    (hc : ∀ b, t = .char b → isSpecial b = false ∧ cdataEnd.isPrefixOf (b :: rest) = false) :
    token (printToken t ++ rest) = some ([t], rest) := by
  cases t with
  | start name as =>
    obtain ⟨b, u, hb, -, hbyte⟩ := h.1.cons
    have htag := startTag_print h.1 h.2 false rest
    simp only [printToken, List.cons_append, List.append_assoc, tagEnd, Bool.false_eq_true,
      if_false] at htag ⊢
    rw [token, if_pos rfl]
    rw [hb, List.cons_append] at htag ⊢
    rw [markup_name hbyte, htag]
  | empty name as =>
    obtain ⟨b, u, hb, -, hbyte⟩ := h.1.cons
    have htag := startTag_print h.1 h.2 true rest
    simp only [printToken, List.cons_append, List.append_assoc, tagEnd, if_true] at htag ⊢
    rw [token, if_pos rfl]
    rw [hb, List.cons_append] at htag ⊢
    rw [markup_name hbyte, htag]
  | close name =>
    have hscan := scanName_print h (show isNameByte 0x3E = false by decide) rest
    simp only [printToken, List.cons_append, List.append_assoc, List.nil_append]
    have hmarkup : markup (0x2F :: (name ++ 0x3E :: rest)) =
        endTag (name ++ 0x3E :: rest) := rfl
    have he : isWhite 0x3E = false := rfl
    rw [token, if_pos rfl, hmarkup, endTag, hscan]
    simp [he]
  | char b =>
    obtain ⟨hplain, hend⟩ := hc b rfl
    simp only [isSpecial, Bool.or_eq_false_iff, beq_eq_false_iff_ne] at hplain
    rw [printToken, List.singleton_append, token, if_neg hplain.1.1, if_neg hplain.1.2,
      if_neg hplain.2, if_neg (by simp [hend]),
      if_pos (show isXmlByte b = true from h)]

theorem print_cons (t : Token) (ts : List Token) : print (t :: ts) = printToken t ++ print ts := rfl

theorem printToken_pos (t : Token) : ∃ b s, printToken t = b :: s := by
  cases t <;> exact ⟨_, _, rfl⟩

theorem readFuel_print {ts : List Token} (hp : ∀ t ∈ ts, t.Proper)
    (hs : ∀ b, .char b ∈ ts → isSpecial b = false) {n : Nat} (hn : ts.length ≤ n) :
    readFuel n (print ts) = if textOk ts then some ts else none := by
  induction ts generalizing n with
  | nil =>
    cases n with
    | zero => rfl
    | succ n => rfl
  | cons t ts ih =>
    cases n with
    | zero => cases hn
    | succ n =>
      obtain ⟨ht, hts⟩ := List.forall_mem_cons.mp hp
      have hrec := ih hts (fun b hb => hs b (List.mem_cons_of_mem _ hb))
        (Nat.le_of_succ_le_succ hn)
      have hpos : printToken t ++ print ts ≠ [] := by
        obtain ⟨c, u, hcu⟩ := printToken_pos t
        rw [hcu]
        exact List.cons_ne_nil _ _
      rw [print_cons]
      have found : (∀ b, t = .char b → cdataEnd.isPrefixOf (b :: print ts) = false) →
          token (printToken t ++ print ts) = some ([t], print ts) := fun hend =>
        token_print ht _ fun b hb => ⟨hs b (hb ▸ List.mem_cons_self), hend b hb⟩
      have tag : (∀ b, t ≠ .char b) → textOk (t :: ts) = textOk ts := by
        intro hne
        cases t with
        | char b => exact absurd rfl (hne b)
        | start | empty | close => rfl
      cases t with
      | char b =>
        rw [textOk]
        by_cases hend : cdataEnd.isPrefixOf (b :: print ts) = true
        · have hnone : token (printToken (.char b) ++ print ts) = none := by
            have hplain := hs b List.mem_cons_self
            simp only [isSpecial, Bool.or_eq_false_iff, beq_eq_false_iff_ne] at hplain
            rw [printToken, List.singleton_append, token, if_neg hplain.1.1, if_neg hplain.1.2,
              if_neg hplain.2, if_pos hend]
          rw [readFuel_none hnone hpos]
          simp [hend]
        · simp only [Bool.not_eq_true] at hend
          rw [readFuel_some (found fun b' hb' => by cases hb'; exact hend) hpos]
          simp only [hend, Bool.not_false, Bool.true_and, hrec]
          cases textOk ts <;> rfl
      | start | empty | close =>
        rw [readFuel_some (found (by simp)) hpos, tag (by simp)]
        simp only [hrec]
        cases textOk ts <;> rfl

theorem length_le_print (ts : List Token) : ts.length ≤ (print ts).length := by
  induction ts with
  | nil => exact le_rfl
  | cons t ts ih =>
    obtain ⟨b, s, hb⟩ := printToken_pos t
    rw [print_cons, hb]
    simp only [List.length_cons, List.length_append]
    omega

theorem weigh_name {name : Bytes} (h : ProperName name) : weigh name = name.length :=
  weigh_eq_length fun b hb => (nameByte_cases (List.all_eq_true.mp h.1 b hb)).1

theorem isSpecial_of_attrByte {b : UInt8} (h : isAttrByte b = true) : isSpecial b = false := by
  have hcr : b ≠ 0x0D := by
    rintro rfl
    revert h
    decide
  simp only [isAttrByte, Bool.and_eq_true, bne_iff_ne, ne_eq] at h
  simp [isSpecial, h.1.1.2, h.1.2, hcr]

theorem weigh_printAttrs {as : List (Bytes × Bytes)} (h : ProperAttrs as) :
    weigh (printAttrs as) = attrsWeight as := by
  induction as with
  | nil => rfl
  | cons a as ih =>
    obtain ⟨hname, hnames⟩ := List.forall_mem_cons.mp h.names
    obtain ⟨hval, hvals⟩ := List.forall_mem_cons.mp h.values
    have hnodup := h.nodup
    rw [List.map_cons, List.nodup_cons] at hnodup
    have hrec := ih ⟨hnames, hvals, hnodup.2⟩
    have hv : weigh a.2 = a.2.length := weigh_eq_length fun b hb =>
      isSpecial_of_attrByte (List.all_eq_true.mp hval b hb)
    obtain ⟨x, y⟩ := a
    dsimp only at hname hv
    simp only [attrsWeight, List.map_cons, List.sum_cons] at hrec ⊢
    rw [printAttrs, weigh_cons, weigh_append, weigh_cons 0x3D, weigh_cons 0x22, weigh_append,
      weigh_cons 0x22 (printAttrs as), weigh_name hname, hv, hrec,
      show weigh [0x20] = 1 from rfl, show weigh [0x3D] = 1 from rfl, show weigh [0x22] = 1 from rfl]
    omega

/-- Written tokens weigh as much as their text. -/
theorem weigh_print {ts : List Token} (h : ∀ t ∈ ts, t.Proper) : weigh (print ts) = weight ts := by
  induction ts with
  | nil => rfl
  | cons t ts ih =>
    obtain ⟨ht, hts⟩ := List.forall_mem_cons.mp h
    have htoken : weigh (printToken t) = t.weight := by
      cases t with
      | start name as =>
        rw [printToken, weigh_open, weigh_append, weigh_append, weigh_name ht.1,
          weigh_printAttrs ht.2, Token.weight, show weigh [0x3E] = 1 from rfl]
        omega
      | empty name as =>
        rw [printToken, weigh_open, weigh_append, weigh_append, weigh_name ht.1,
          weigh_printAttrs ht.2, Token.weight, show weigh [0x2F, 0x3E] = 2 from rfl]
        omega
      | close name =>
        rw [printToken, weigh_open, weigh_cons, weigh_append, weigh_name ht, Token.weight,
          show weigh [0x3E] = 1 from rfl, show weigh [0x2F] = 1 from rfl]
        omega
      | char b => rfl
    rw [print_cons, weigh_append, htoken, ih hts]
    rfl

/-- **When writing without escapes is faithful**: the reader gets the tokens back if and only if no
character needed an escape. -/
theorem read_print_iff {ts : List Token} (hp : ∀ t ∈ ts, t.Proper) :
    read (print ts) = some ts ↔
      (∀ b, .char b ∈ ts → isSpecial b = false) ∧ textOk ts = true := by
  constructor
  · intro h
    have hs := (readFuel_spec h).2 (by rw [weigh_nil, weigh_print hp, Nat.add_zero])
    refine ⟨hs, ?_⟩
    rw [read, readFuel_print hp hs (length_le_print ts)] at h
    by_contra hne
    rw [if_neg hne] at h
    cases h
  · rintro ⟨hs, hok⟩
    rw [read, readFuel_print hp hs (length_le_print ts), if_pos hok]

end FlowAlarm.Xml
