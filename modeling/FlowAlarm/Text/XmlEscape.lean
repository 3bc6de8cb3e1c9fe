import FlowAlarm.Text.XmlTemplate

/-!
# Escaped text

`escapeText` writes a text so that it can stand in a document, and `legible` is
what is left of the text then: a byte that belongs to no character, and a
character no document can carry, become U+FFFD. `parse_fill` reads a template
whose holes were filled with escaped texts.
-/

namespace FlowAlarm.Text

theorem fits_ascii {rs : List (UInt8 × UInt8)} (hr : ∀ r ∈ rs, (0x80 : UInt8) ≤ r.1) {s : Bytes}
    (h : fits rs s = false) {c : UInt8} (hc : c < 0x80) (u : Bytes) :
    fits rs (s ++ c :: u) = false := by
  induction rs generalizing s with
  | nil => cases h
  | cons r rs ih =>
    obtain ⟨hr0, hrs⟩ := List.forall_mem_cons.mp hr
    cases s with
    | nil =>
      have : ¬ r.1 ≤ c := fun hle => absurd hc (UInt8.not_lt.mpr (UInt8.le_trans hr0 hle))
      simp [fits, this]
    | cons b s =>
      simp only [List.cons_append, fits, Bool.and_eq_false_iff] at h ⊢
      exact h.imp_right fun hs => ih hrs hs

/-- An ASCII character completes no character before it. -/
theorem runeTail_ascii {b : UInt8} {s : Bytes} (h : runeTail b s = none) {c : UInt8}
    (hc : c < 0x80) (u : Bytes) : runeTail b (s ++ c :: u) = none := by
  unfold runeTail at h ⊢
  split
  · rfl
  next rs hrs =>
    rw [hrs] at h
    have hhigh := (contRanges_high b.toNat b.toNat_lt rs (by simpa using hrs)).2
    have hfits : fits rs s = false := by
      cases hf : fits rs s with
      | false => rfl
      | true => simp [hf] at h
    rw [if_neg (by simp [fits_ascii hhigh hfits hc])]

end FlowAlarm.Text

namespace FlowAlarm.Xml

open FlowAlarm.Text

/-! ## Texts, character by character -/

/-- `b` and `s` begin with U+FFFE or U+FFFF. -/
def isNonchar (b : UInt8) (s : Bytes) : Bool :=
  b == 0xEF && (s.take 2 == [0xBF, 0xBE] || s.take 2 == [0xBF, 0xBF])

/-- `mapRunes` within a character of which `k` bytes are left. -/
def mapRunesFrom (f : UInt8 → Bytes) : Bool → Nat → Bytes → Bytes
  | _, _, [] => []
  | keep, k + 1, b :: s =>
    if keep then b :: mapRunesFrom f keep k s else mapRunesFrom f keep k s
  | _, 0, b :: s =>
    if b < 0x80 then f b ++ mapRunesFrom f true 0 s
    else
      match runeTail b s with
      | some n =>
        if isNonchar b s then replacement ++ mapRunesFrom f false n s
        else b :: mapRunesFrom f true n s
      | none => replacement ++ mapRunesFrom f true 0 s

/-- A text with `f` applied to its ASCII characters and U+FFFD in the place of what no document
can carry. -/
def mapRunes (f : UInt8 → Bytes) (s : Bytes) : Bytes := mapRunesFrom f true 0 s

def escapeAscii (b : UInt8) : Bytes :=
  if b = 0x22 then ascii "&#34;"
  else if b = 0x27 then ascii "&#39;"
  else if b = 0x26 then ascii "&amp;"
  else if b = 0x3C then ascii "&lt;"
  else if b = 0x3E then ascii "&gt;"
  else if b = 0x09 then ascii "&#x9;"
  else if b = 0x0A then ascii "&#xA;"
  else if b = 0x0D then ascii "&#xD;"
  else if b < 0x20 then replacement
  else [b]

def legibleAscii (b : UInt8) : Bytes := if isXmlByte b then [b] else replacement

/-- `EscapeText`. -/
def escapeText (s : Bytes) : Bytes := mapRunes escapeAscii s

/-- What a reader gets of a text. -/
def legible (s : Bytes) : Bytes := mapRunes legibleAscii s

section Runes

variable (f : UInt8 → Bytes)

theorem mapRunesFrom_keep (t s : Bytes) :
    mapRunesFrom f true t.length (t ++ s) = t ++ mapRunes f s := by
  induction t with
  | nil => cases s <;> rfl
  | cons b t ih =>
    rw [List.length_cons, List.cons_append, mapRunesFrom, if_pos rfl, ih, List.cons_append]

theorem mapRunesFrom_drop (t s : Bytes) :
    mapRunesFrom f false t.length (t ++ s) = mapRunes f s := by
  induction t with
  | nil => cases s <;> rfl
  | cons b t ih =>
    rw [List.length_cons, List.cons_append, mapRunesFrom, if_neg Bool.false_ne_true, ih]

theorem mapRunes_ascii {b : UInt8} (h : b < 0x80) (s : Bytes) :
    mapRunes f (b :: s) = f b ++ mapRunes f s := by
  rw [mapRunes, mapRunesFrom, if_pos h]
  rfl

theorem mapRunes_rune {b : UInt8} {t : Bytes} (h : Completes b t) (s : Bytes) :
    mapRunes f (b :: (t ++ s)) =
      (if isNonchar b (t ++ s) then replacement else b :: t) ++ mapRunes f s := by
  rw [mapRunes, mapRunesFrom, if_neg h.high, h.rune s]
  simp only [mapRunesFrom_keep, mapRunesFrom_drop]
  split <;> rfl

theorem mapRunes_bad {b : UInt8} {s : Bytes} (hb : ¬ b < 0x80) (h : runeTail b s = none) :
    mapRunes f (b :: s) = replacement ++ mapRunes f s := by
  rw [mapRunes, mapRunesFrom, if_neg hb, h]
  rfl

end Runes

/-- A text of printable ASCII is legible as it is. -/
theorem legible_ascii {s : Bytes} (h : ∀ b ∈ s, b < 0x80 ∧ isXmlByte b = true) : legible s = s := by
  induction s with
  | nil => rfl
  | cons b s ih =>
    obtain ⟨hb, hs⟩ := List.forall_mem_cons.mp h
    have hrec := ih hs
    rw [legible, mapRunes_ascii _ hb.1, legibleAscii, if_pos hb.2]
    exact congrArg (b :: ·) hrec

theorem isNonchar_append {b : UInt8} {t : Bytes} (h : Completes b t) (s u : Bytes) :
    isNonchar b (t ++ s) = isNonchar b (t ++ u) := by
  by_cases hb : b = 0xEF
  · have hlen : t.length = 2 := by
      have hrune := h.rune []
      rw [hb] at hrune
      have htwo : ∀ {v : Bytes} {n : Nat}, runeTail 0xEF v = some n → n = 2 := by
        intro v n hv
        have hcont : contRanges 0xEF = some [(0x80, 0xBF), (0x80, 0xBF)] := by decide
        simp only [runeTail, hcont] at hv
        split at hv
        · exact (Option.some.inj hv).symm
        · cases hv
      exact htwo hrune
    have htake : ∀ v, (t ++ v).take 2 = t := fun v => by rw [← hlen, List.take_left]
    simp only [isNonchar, htake]
  · have hne : (b == 0xEF) = false := beq_eq_false_iff_ne.mpr hb
    simp only [isNonchar, hne, Bool.false_and]

/-- An ASCII character is a boundary of characters. -/
theorem mapRunes_split (f : UInt8 → Bytes) (a : Bytes) {c : UInt8} (hc : c < 0x80) (s : Bytes) :
    mapRunes f (a ++ c :: s) = mapRunes f a ++ mapRunes f (c :: s) := by
  induction a using utf8_induction with
  | nil => rfl
  | ascii b a hb ih =>
    rw [List.cons_append, mapRunes_ascii _ hb, mapRunes_ascii _ hb, ih, List.append_assoc]
  | rune b t a h ih =>
    rw [List.cons_append, List.append_assoc, mapRunes_rune _ h, mapRunes_rune _ h, ih,
      isNonchar_append h _ a, List.append_assoc]
  | bad b a hb h ih =>
    rw [List.cons_append, mapRunes_bad _ hb (runeTail_ascii h hc s), mapRunes_bad _ hb h, ih,
      List.append_assoc]

theorem legible_cons {c : UInt8} (hc : c < 0x80) (hx : isXmlByte c = true) (s : Bytes) :
    legible (c :: s) = c :: legible s := by
  rw [legible, mapRunes_ascii _ hc, legibleAscii, if_pos hx]
  rfl

theorem legible_split (a : Bytes) {c : UInt8} (hc : c < 0x80) (hx : isXmlByte c = true)
    (s : Bytes) : legible (a ++ c :: s) = legible a ++ c :: legible s := by
  rw [← legible_cons hc hx]
  exact mapRunes_split _ a hc s

/-- A legible text has no ASCII character the text did not have. -/
theorem mem_legible {c : UInt8} (hc : c < 0x80) {s : Bytes} (h : c ∈ legible s) : c ∈ s := by
  have hrep : c ∉ replacement := fun hm => by
    revert hc
    simp only [replacement, List.mem_cons, List.not_mem_nil, or_false] at hm
    rcases hm with rfl | rfl | rfl <;> decide
  induction s using utf8_induction with
  | nil => exact h
  | ascii b s hb ih =>
    rw [legible, mapRunes_ascii _ hb, List.mem_append] at h
    rcases h with h | h
    · unfold legibleAscii at h
      split at h
      · exact List.mem_cons.mpr (.inl (List.mem_singleton.mp h))
      · exact absurd h hrep
    · exact List.mem_cons_of_mem _ (ih h)
  | rune b t s hr ih =>
    rw [legible, mapRunes_rune _ hr, List.mem_append] at h
    rcases h with h | h
    · split at h
      · exact absurd h hrep
      · rw [← List.cons_append]
        exact List.mem_append_left _ h
    · exact List.mem_cons_of_mem _ (List.mem_append_right _ (ih h))
  | bad b s hb ht ih =>
    rw [legible, mapRunes_bad _ hb ht, List.mem_append] at h
    rcases h with h | h
    · exact absurd h hrep
    · exact List.mem_cons_of_mem _ (ih h)

/-! ## What a reader gets -/

/-- The reader finds the tokens in the text. -/
def Reads (s : Bytes) (ts : List Token) : Prop := ∀ n, s.length ≤ n → readFuel n s = some ts

theorem Reads.read {s : Bytes} {ts : List Token} (h : Reads s ts) : read s = some ts :=
  h s.length le_rfl

theorem reads_nil : Reads [] [] := fun n _ => by cases n <;> rfl

theorem Reads.step {s t : Bytes} {us ts : List Token} (h : token s = some (us, t))
    (hlen : t.length < s.length) (ht : Reads t ts) : Reads s (us ++ ts) := by
  intro n hn
  cases n with
  | zero => omega
  | succ n =>
    have hs : s ≠ [] := by
      rintro rfl
      cases h
    rw [readFuel_some h hs, ht n (by omega), Option.map_some]

theorem Reads.tag {t : Token} (h : t.Proper) (htag : t.isTag = true) {s : Bytes}
    {ts : List Token} (hs : Reads s ts) : Reads (printToken t ++ s) (t :: ts) := by
  have htoken : token (printToken t ++ s) = some ([t], s) := by
    refine token_print h s fun b hb => ?_
    rw [hb] at htag
    cases htag
  obtain ⟨b, u, hu⟩ := printToken_pos t
  refine Reads.step htoken ?_ hs
  rw [hu, List.cons_append, List.length_cons, List.length_append]
  omega

theorem Reads.char {b : UInt8} (hx : isXmlByte b = true) (hsp : isSpecial b = false) {s : Bytes}
    (hend : cdataEnd.isPrefixOf (b :: s) = false) {ts : List Token} (hs : Reads s ts) :
    Reads (b :: s) (.char b :: ts) := by
  have hproper : (Token.char b).Proper := hx
  have htoken : token (b :: s) = some ([.char b], s) :=
    token_print hproper s fun c hc => by
      cases hc
      exact ⟨hsp, hend⟩
  exact Reads.step htoken (Nat.lt_succ_self _) hs

theorem high_plain {b : UInt8} (h : ¬ b < 0x80) :
    isXmlByte b = true ∧ isSpecial b = false ∧ b ≠ 0x5D := by
  have hall : ∀ n < 256, ¬ UInt8.ofNat n < 0x80 → isXmlByte (UInt8.ofNat n) = true ∧
      isSpecial (UInt8.ofNat n) = false ∧ UInt8.ofNat n ≠ 0x5D := by decide +kernel
  have hb : UInt8.ofNat b.toNat = b := UInt8.ofNat_toNat
  simpa only [hb] using hall b.toNat b.toNat_lt (by rw [hb]; exact h)

theorem cdataEnd_other {b : UInt8} (h : b ≠ 0x5D) (s : Bytes) :
    cdataEnd.isPrefixOf (b :: s) = false := by
  simp [cdataEnd, List.isPrefixOf, Ne.symm h]

theorem Reads.high {w : Bytes} (hw : ∀ b ∈ w, ¬ b < 0x80) {s : Bytes} {ts : List Token}
    (hs : Reads s ts) : Reads (w ++ s) (text w ++ ts) := by
  induction w with
  | nil => exact hs
  | cons b w ih =>
    obtain ⟨hb, hw⟩ := List.forall_mem_cons.mp hw
    obtain ⟨hx, hsp, hne⟩ := high_plain hb
    exact Reads.char hx hsp (cdataEnd_other hne _) (ih hw)

theorem replacement_high : ∀ b ∈ replacement, ¬ b < 0x80 :=
  List.forall_mem_cons.mpr ⟨by decide, completes_replacement.bytes⟩

/-! ## References -/

/-- A reference stands for one byte. -/
def refers (r : Bytes) (b : UInt8) : Prop := ∀ s, token (r ++ s) = some ([.char b], s)

theorem refers_quot : refers (ascii "&#34;") 0x22 := fun _ => rfl
theorem refers_apos : refers (ascii "&#39;") 0x27 := fun _ => rfl
theorem refers_amp : refers (ascii "&amp;") 0x26 := fun _ => rfl
theorem refers_lt : refers (ascii "&lt;") 0x3C := fun _ => rfl
theorem refers_gt : refers (ascii "&gt;") 0x3E := fun _ => rfl
theorem refers_tab : refers (ascii "&#x9;") 0x09 := fun _ => rfl
theorem refers_nl : refers (ascii "&#xA;") 0x0A := fun _ => rfl
theorem refers_cr : refers (ascii "&#xD;") 0x0D := fun _ => rfl

theorem Reads.reference {r : Bytes} {b : UInt8} (h : refers r b) (hr : r ≠ []) {s : Bytes}
    {ts : List Token} (hs : Reads s ts) : Reads (r ++ s) (.char b :: ts) := by
  refine Reads.step (h s) ?_ hs
  have := List.length_pos_of_ne_nil hr
  rw [List.length_append]
  omega

/-- An escaped ASCII byte is a reference, a replacement or the byte itself. -/
theorem escapeAscii_cases (b : UInt8) :
    (refers (escapeAscii b) b ∧ isXmlByte b = true ∧ escapeAscii b ≠ []) ∨
    (escapeAscii b = replacement ∧ isXmlByte b = false) ∨
    (escapeAscii b = [b] ∧ isXmlByte b = true ∧ isSpecial b = false ∧ b ≠ 0x3E) := by
  unfold escapeAscii
  split
  next h => exact .inl ⟨h ▸ refers_quot, h ▸ rfl, by decide⟩
  split
  next h => exact .inl ⟨h ▸ refers_apos, h ▸ rfl, by decide⟩
  split
  next h => exact .inl ⟨h ▸ refers_amp, h ▸ rfl, by decide⟩
  split
  next h => exact .inl ⟨h ▸ refers_lt, h ▸ rfl, by decide⟩
  split
  next h => exact .inl ⟨h ▸ refers_gt, h ▸ rfl, by decide⟩
  split
  next h => exact .inl ⟨h ▸ refers_tab, h ▸ rfl, by decide⟩
  split
  next h => exact .inl ⟨h ▸ refers_nl, h ▸ rfl, by decide⟩
  split
  next h => exact .inl ⟨h ▸ refers_cr, h ▸ rfl, by decide⟩
  next hamp hlt hgt htab hnl hcr =>
    split
    next h =>
      refine .inr (.inl ⟨rfl, ?_⟩)
      simp [isXmlByte, htab, hnl, hcr, h]
    next h =>
      refine .inr (.inr ⟨rfl, ?_, ?_, hgt⟩)
      · simp [isXmlByte, UInt8.not_lt.mp h]
      · simp [isSpecial, hamp, hlt, hcr]

/-- No bracket that could end a CDATA section is left in an escaped text. -/
theorem not_mem_escapeText (s : Bytes) : (0x3E : UInt8) ∉ escapeText s := by
  have hrep : (0x3E : UInt8) ∉ replacement := by decide
  have hhigh : ∀ w : Bytes, (∀ b ∈ w, ¬ b < 0x80) → (0x3E : UInt8) ∉ w := fun w hw hmem =>
    hw _ hmem (by decide)
  induction s using utf8_induction with
  | nil => simp [escapeText, mapRunes, mapRunesFrom]
  | ascii b s hb ih =>
    rw [escapeText, mapRunes_ascii _ hb, List.mem_append]
    rintro (hmem | hmem)
    · revert hmem
      unfold escapeAscii
      repeat' split
      all_goals first
        | decide
        | simp_all [eq_comm]
    · exact ih hmem
  | rune b t s hc ih =>
    rw [escapeText, mapRunes_rune _ hc, List.mem_append]
    rintro (hmem | hmem)
    · split at hmem
      · exact hrep hmem
      · exact hhigh _ (List.forall_mem_cons.mpr ⟨hc.high, hc.bytes⟩) hmem
    · exact ih hmem
  | bad b s hb ht ih =>
    rw [escapeText, mapRunes_bad _ hb ht, List.mem_append]
    exact fun h => h.elim hrep ih

theorem cdataEnd_escaped {w : Bytes} (h : (0x3E : UInt8) ∉ w) (s : Bytes) :
    cdataEnd.isPrefixOf (w ++ 0x3C :: s) = false := by
  rw [cdataEnd_append]
  cases hp : cdataEnd.isPrefixOf w with
  | false => rfl
  | true =>
    obtain ⟨u, rfl⟩ := List.isPrefixOf_iff_prefix.mp hp
    exact absurd (by simp [cdataEnd]) h

/-- **What a reader gets of an escaped text before a tag.** -/
theorem reads_escapeText (v : Bytes) {s : Bytes} {ts : List Token} (hs : Reads (0x3C :: s) ts) :
    Reads (escapeText v ++ 0x3C :: s) (text (legible v) ++ ts) := by
  have htext : ∀ u w : Bytes, text (u ++ w) ++ ts = text u ++ (text w ++ ts) := fun u w => by
    rw [text, List.map_append, List.append_assoc]
    rfl
  induction v using utf8_induction with
  | nil => exact hs
  | ascii b v hb ih =>
    rw [escapeText, legible, mapRunes_ascii _ hb, mapRunes_ascii _ hb, List.append_assoc, htext]
    rcases escapeAscii_cases b with ⟨href, hx, hne⟩ | ⟨heq, hx⟩ | ⟨heq, hx, hsp, hgt⟩
    · rw [legibleAscii, if_pos hx]
      exact ih.reference href hne
    · rw [legibleAscii, if_neg (by simp [hx]), heq]
      exact ih.high replacement_high
    · rw [legibleAscii, if_pos hx, heq]
      have hmem : (0x3E : UInt8) ∉ b :: escapeText v := fun hm =>
        (List.mem_cons.mp hm).elim (fun h => hgt h.symm) (not_mem_escapeText v)
      have hend := cdataEnd_escaped hmem s
      exact Reads.char hx hsp hend ih
  | rune b t v hc ih =>
    rw [escapeText, legible, mapRunes_rune _ hc, mapRunes_rune _ hc, List.append_assoc, htext]
    split
    · exact ih.high replacement_high
    · exact ih.high (List.forall_mem_cons.mpr ⟨hc.high, hc.bytes⟩)
  | bad b v hb ht ih =>
    rw [escapeText, legible, mapRunes_bad _ hb ht, mapRunes_bad _ hb ht, List.append_assoc, htext]
    exact ih.high replacement_high

/-! ## Filled templates -/

/-- A template with its holes filled by escaped texts. -/
def fill : Template → List Bytes → Bytes
  | [], _ => []
  | some t :: tmpl, args => printToken t ++ fill tmpl args
  | none :: tmpl, args => escapeText (args.headD []) ++ fill tmpl args.tail

theorem reads_fill {tmpl : Template} (h : sealed tmpl = true)
    (hp : ∀ o ∈ tmpl, ∀ t ∈ o, t.Proper) (args : List Bytes) :
    Reads (fill tmpl args) (plug tmpl (args.map legible)) := by
  induction tmpl generalizing args with
  | nil => exact reads_nil
  | cons o tmpl ih =>
    obtain ⟨ho, htmpl⟩ := List.forall_mem_cons.mp hp
    cases o with
    | some t =>
      have ht : t.Proper := ho t rfl
      cases t with
      | char b =>
        simp only [sealed, Bool.and_eq_true, Bool.not_eq_true', bne_iff_ne, ne_eq] at h
        exact Reads.char ht h.1.1 (cdataEnd_other h.1.2 _) (ih h.2 htmpl args)
      | start | empty | close => exact Reads.tag ht rfl (ih h htmpl args)
    | none =>
      cases tmpl with
      | nil => cases h
      | cons o' tmpl' =>
        cases o' with
        | none => cases h
        | some t =>
          rw [sealed, Bool.and_eq_true] at h
          obtain ⟨u, hu⟩ := printToken_tag h.1
          have hrec := ih h.2 htmpl args.tail
          have hhead : ((args.map legible).headD [] : Bytes) = legible (args.headD []) := by
            cases args <;> rfl
          have htail : (args.map legible).tail = args.tail.map legible := by
            cases args <;> rfl
          have hbracket : fill (some t :: tmpl') args.tail = 0x3C :: (u ++ fill tmpl' args.tail) := by
            rw [fill, hu, List.cons_append]
          rw [fill, plug, hhead, htail]
          rw [hbracket] at hrec ⊢
          exact reads_escapeText _ hrec

/-- **A template filled with escaped texts is the document whose texts are legible.** -/
theorem parse_fill {tmpl : Template} (h : sealed tmpl = true)
    (hp : ∀ o ∈ tmpl, ∀ t ∈ o, t.Proper) (hb : balance [] false tmpl = some ([], true))
    {decl : Bytes} (args : List Bytes) (hd : prolog (decl ++ fill tmpl args) = some (fill tmpl args)) :
    parse (decl ++ fill tmpl args) = some (plug tmpl (args.map legible)) := by
  have hnested : nested [] false (plug tmpl (args.map legible)) = true := by
    have := nested_plug hb (args.map legible) []
    rwa [List.append_nil] at this
  unfold parse
  rw [hd, Option.bind_some, (reads_fill h hp args).read]
  simp only [hnested, if_true]

/-! ## Flat records

A record is a document of one element, the root, with elements that hold texts. -/

def recordBody (root : Bytes) (names : List Bytes) : Template :=
  (names.flatMap fun n => [some (.start n []), none, some (.close n)]) ++ [some (.close root)]

def recordTemplate (root : Bytes) (names : List Bytes) : Template :=
  some (.char 0x0A) :: some (.start root []) :: recordBody root names

theorem recordBody_cons (root n : Bytes) (names : List Bytes) :
    recordBody root (n :: names) =
      some (.start n []) :: none :: some (.close n) :: recordBody root names := rfl

/-- The elements of a record up to its end; `open'` is the one being read and its text. -/
def members (root : Bytes) : Option (Bytes × Bytes) → List Token → Option (List (Bytes × Bytes))
  | some (n, v), .char b :: ts => members root (some (n, v ++ [b])) ts
  | some (n, v), .close m :: ts =>
    if m = n then (members root none ts).map ((n, v) :: ·) else none
  | none, .start n [] :: ts => members root (some (n, [])) ts
  | none, .char b :: ts => if isWhite b then members root none ts else none
  | none, [.close m] => if m = root then some [] else none
  | _, _ => none

/-- The root of a record and its elements, read from a document. -/
def readRecord (doc : Bytes) : Option (Bytes × List (Bytes × Bytes)) :=
  match parse doc with
  | some (.char b :: .start root [] :: ts) =>
    if isWhite b then (members root none ts).map fun ms => (root, ms) else none
  | some (.start root [] :: ts) => (members root none ts).map fun ms => (root, ms)
  | _ => none

theorem members_text (root n v w : Bytes) (ts : List Token) :
    members root (some (n, v)) (text w ++ ts) = members root (some (n, v ++ w)) ts := by
  induction w generalizing v with
  | nil => rw [List.append_nil]; rfl
  | cons b w ih =>
    have hcons : text (b :: w) ++ ts = .char b :: (text w ++ ts) := rfl
    rw [hcons, members, ih, List.append_assoc, List.singleton_append]

theorem members_plug (root : Bytes) (ms : List (Bytes × Bytes)) :
    members root none (plug (recordBody root (ms.map (·.1))) (ms.map (·.2))) = some ms := by
  induction ms with
  | nil => exact if_pos rfl
  | cons m ms ih =>
    obtain ⟨n, v⟩ := m
    simp only [List.map_cons, recordBody_cons, plug, List.headD_cons, List.tail_cons, members]
    rw [members_text, List.nil_append, members, if_pos rfl, ih, Option.map_some]

theorem recordTemplate_checks {root : Bytes} (hr : ProperName root) {names : List Bytes}
    (hn : ∀ n ∈ names, ProperName n) :
    sealed (recordTemplate root names) = true ∧
      (∀ o ∈ recordTemplate root names, ∀ t ∈ o, t.Proper) ∧
      balance [] false (recordTemplate root names) = some ([], true) := by
  have hattrs : ProperAttrs [] := ⟨by simp, by simp, List.nodup_nil⟩
  have hbody : sealed (recordBody root names) = true ∧
      (∀ o ∈ recordBody root names, ∀ t ∈ o, t.Proper) ∧
      balance [root] true (recordBody root names) = some ([], true) := by
    induction names with
    | nil =>
      refine ⟨rfl, ?_, by simp [recordBody, balance]⟩
      refine List.forall_mem_singleton.mpr ?_
      rintro t ⟨⟩
      exact hr
    | cons n names ih =>
      obtain ⟨hname, hnames⟩ := List.forall_mem_cons.mp hn
      obtain ⟨hseal, hproper, hbal⟩ := ih hnames
      rw [recordBody_cons]
      refine ⟨?_, ?_, ?_⟩
      · simpa [sealed, Token.isTag] using hseal
      · simp only [List.forall_mem_cons]
        refine ⟨?_, by simp, ?_, hproper⟩
        · rintro t ⟨⟩
          exact ⟨hname, hattrs⟩
        · rintro t ⟨⟩
          exact hname
      · simpa [balance] using hbal
  refine ⟨?_, ?_, ?_⟩
  · simpa [recordTemplate, sealed, isSpecial] using hbody.1
  · rw [recordTemplate, List.forall_mem_cons, List.forall_mem_cons]
    refine ⟨?_, ?_, hbody.2.1⟩
    · rintro t ⟨⟩
      exact (rfl : isXmlByte 0x0A = true)
    · rintro t ⟨⟩
      exact ⟨hr, hattrs⟩
  · have hw : isWhite 0x0A = true := rfl
    rw [recordTemplate, balance, if_pos hw]
    exact hbody.2.2

/-- **A record read back**: its elements in order, with what is legible of their texts. -/
theorem readRecord_fill {root : Bytes} (hr : ProperName root) {ms : List (Bytes × Bytes)}
    (hn : ∀ m ∈ ms, ProperName m.1) {decl : Bytes}
    (hd : ∀ s, prolog (decl ++ s) = some s) :
    readRecord (decl ++ fill (recordTemplate root (ms.map (·.1))) (ms.map (·.2))) =
      some (root, ms.map fun m => (m.1, legible m.2)) := by
  have hnames : ∀ n ∈ ms.map (·.1), ProperName n := by
    rintro n hmem
    obtain ⟨m, hm, rfl⟩ := List.mem_map.mp hmem
    exact hn m hm
  obtain ⟨hseal, hproper, hbal⟩ := recordTemplate_checks hr hnames
  have hbody := members_plug root (ms.map fun m => (m.1, legible m.2))
  have hkeys : (ms.map fun m => (m.1, legible m.2)).map (·.1) = ms.map (·.1) := by
    rw [List.map_map]
    rfl
  have hvals : (ms.map fun m => (m.1, legible m.2)).map (·.2) = (ms.map (·.2)).map legible := by
    rw [List.map_map, List.map_map]
    rfl
  rw [hkeys, hvals] at hbody
  have hw : isWhite 0x0A = true := rfl
  rw [readRecord, parse_fill hseal hproper hbal _ (hd _)]
  simp only [recordTemplate, plug, hw, if_true, hbody, Option.map_some]

end FlowAlarm.Xml
