import FlowAlarm.Text.XmlPrint

/-!
# Documents from templates

A template is a document with holes for texts. `sprintf` fills a format string
and `plug` the template behind it; `sprintf_plug` says that they agree, and
`clean_plug` that a filled template needs no escape if and only if no text put
into it does.
-/

namespace FlowAlarm.Xml

open FlowAlarm.Text

/-- Formatting with the verbs `%s` and `%d`, whose arguments are texts already. -/
def sprintf : Bytes → List Bytes → Bytes
  | [], _ => []
  | [b], _ => [b]
  | b :: c :: fmt, args =>
    if b = 0x25 then args.headD [] ++ sprintf fmt args.tail else b :: sprintf (c :: fmt) args

/-- Tokens and, where a text goes, `none`. -/
abbrev Template := List (Option Token)

def text (v : Bytes) : List Token := v.map .char

def plug : Template → List Bytes → List Token
  | [], _ => []
  | some t :: tmpl, args => t :: plug tmpl args
  | none :: tmpl, args => text (args.headD []) ++ plug tmpl args.tail

def holes (tmpl : Template) : Nat := tmpl.countP Option.isNone

/-- The format string of a template. -/
def fits : Bytes → Template → Bool
  | fmt, [] => fmt.isEmpty
  | fmt, some t :: tmpl =>
    (printToken t).isPrefixOf fmt && (printToken t).all (· != 0x25) &&
      fits (fmt.drop (printToken t).length) tmpl
  | b :: _ :: fmt, none :: tmpl => b == 0x25 && fits fmt tmpl
  | [], none :: _ => false
  | [_], none :: _ => false

theorem print_append (ts us : List Token) : print (ts ++ us) = print ts ++ print us :=
  List.flatMap_append

theorem print_text (v : Bytes) : print (text v) = v := by
  induction v with
  | nil => rfl
  | cons b v ih => exact congrArg (b :: ·) ih

theorem sprintf_text {u : Bytes} (h : ∀ b ∈ u, b ≠ 0x25) (fmt : Bytes) (args : List Bytes) :
    sprintf (u ++ fmt) args = u ++ sprintf fmt args := by
  induction u with
  | nil => rfl
  | cons b u ih =>
    obtain ⟨hb, hu⟩ := List.forall_mem_cons.mp h
    have hrec := ih hu
    rw [List.cons_append, List.cons_append, ← hrec]
    cases u ++ fmt with
    | nil => rfl
    | cons c s => exact if_neg hb

/-- A filled format string is the text of the filled template. -/
theorem sprintf_plug {fmt : Bytes} {tmpl : Template} (h : fits fmt tmpl = true)
    {args : List Bytes} (hn : holes tmpl = args.length) (fmt' : Bytes) (args' : List Bytes) :
    sprintf (fmt ++ fmt') (args ++ args') = print (plug tmpl args) ++ sprintf fmt' args' := by
  induction tmpl generalizing fmt args with
  | nil =>
    rw [fits, List.isEmpty_iff] at h
    rw [h, List.length_eq_zero_iff.mp hn.symm]
    rfl
  | cons o tmpl ih =>
    cases o with
    | some t =>
      simp only [fits, Bool.and_eq_true] at h
      obtain ⟨⟨hpre, hall⟩, hrest⟩ := h
      obtain ⟨u, rfl⟩ := List.isPrefixOf_iff_prefix.mp hpre
      rw [List.drop_left] at hrest
      have hne : ∀ b ∈ printToken t, b ≠ 0x25 := fun b hb => by
        simpa using List.all_eq_true.mp hall b hb
      have hn' : holes tmpl = args.length := by
        rw [← hn, holes, holes, List.countP_cons_of_neg (by simp)]
      rw [List.append_assoc, sprintf_text hne, plug, print_cons, ih hrest hn', List.append_assoc]
    | none =>
      cases fmt with
      | nil => cases h
      | cons b fmt =>
        cases fmt with
        | nil => cases h
        | cons c fmt =>
          simp only [fits, Bool.and_eq_true, beq_iff_eq] at h
          cases args with
          | nil =>
            rw [holes, List.countP_cons_of_pos rfl] at hn
            cases hn
          | cons a args =>
            have hn' : holes tmpl = args.length := by
              rw [holes, List.countP_cons_of_pos rfl, List.length_cons] at hn
              exact Nat.succ.inj hn
            have hrec := ih h.2 hn'
            simp only [List.cons_append, sprintf, if_pos h.1, plug, print_append, print_text,
              List.headD_cons, List.tail_cons, hrec, List.append_assoc]

/-! ## Where a filled template needs no escape -/

/-- No character of the tokens needs an escape. -/
def Clean (ts : List Token) : Prop :=
  (∀ b, .char b ∈ ts → isSpecial b = false) ∧ textOk ts = true

def noCdataEnd : Bytes → Bool
  | [] => true
  | b :: s => !cdataEnd.isPrefixOf (b :: s) && noCdataEnd s

/-- A text that stands for itself in a document. -/
def PlainText (v : Bytes) : Prop := (∀ b ∈ v, isSpecial b = false) ∧ noCdataEnd v = true

instance (v : Bytes) : Decidable (PlainText v) := inferInstanceAs (Decidable (_ ∧ _))

def Token.isTag : Token → Bool
  | .char _ => false
  | _ => true

/-- Every hole stands before a tag and the characters around the holes need no escape. -/
def sealed : Template → Bool
  | [] => true
  | some (.char b) :: tmpl => !isSpecial b && b != 0x5D && sealed tmpl
  | some _ :: tmpl => sealed tmpl
  | none :: some t :: tmpl => t.isTag && sealed (some t :: tmpl)
  | none :: _ => false

theorem clean_nil : Clean [] := ⟨fun _ h => (nomatch h), rfl⟩

theorem clean_tag {t : Token} (h : t.isTag = true) (ts : List Token) :
    Clean (t :: ts) ↔ Clean ts := by
  cases t with
  | char b => cases h
  | start | empty | close => simp [Clean, textOk]

theorem clean_char {b : UInt8} (hs : isSpecial b = false) (hb : b ≠ 0x5D) (ts : List Token) :
    Clean (.char b :: ts) ↔ Clean ts := by
  have hend : cdataEnd.isPrefixOf (b :: print ts) = false := by
    simp [cdataEnd, List.isPrefixOf, Ne.symm hb]
  simp [Clean, textOk, hend, hs]

/-- The end of a CDATA section does not reach into a tag. -/
theorem cdataEnd_append {v s : Bytes} :
    cdataEnd.isPrefixOf (v ++ 0x3C :: s) = cdataEnd.isPrefixOf v := by
  cases v with
  | nil => rfl
  | cons a v =>
    cases v with
    | nil => simp [cdataEnd, List.isPrefixOf]
    | cons b v =>
      cases v with
      | nil => simp [cdataEnd, List.isPrefixOf]
      | cons c v => simp [cdataEnd, List.isPrefixOf]

theorem printToken_tag {t : Token} (h : t.isTag = true) : ∃ s, printToken t = 0x3C :: s := by
  cases t with
  | char b => cases h
  | start | empty | close => exact ⟨_, rfl⟩

theorem clean_text {t : Token} (h : t.isTag = true) (v : Bytes) (ts : List Token) :
    Clean (text v ++ t :: ts) ↔ PlainText v ∧ Clean (t :: ts) := by
  have hok : textOk (text v ++ t :: ts) = (noCdataEnd v && textOk (t :: ts)) := by
    obtain ⟨s, hs⟩ := printToken_tag h
    induction v with
    | nil => rfl
    | cons b v ih =>
      have hprint : print (text v ++ t :: ts) = v ++ 0x3C :: (s ++ print ts) := by
        rw [print_append, print_text, print_cons, hs]
        rfl
      have hcons : textOk (text (b :: v) ++ t :: ts) =
          (!cdataEnd.isPrefixOf (b :: print (text v ++ t :: ts)) &&
            textOk (text v ++ t :: ts)) := rfl
      have hend := @cdataEnd_append (b :: v) (s ++ print ts)
      rw [List.cons_append] at hend
      rw [hcons, hprint, hend, ih, noCdataEnd, Bool.and_assoc]
  have hmem : ∀ b, Token.char b ∈ text v ++ t :: ts ↔ b ∈ v ∨ Token.char b ∈ t :: ts := by
    simp [text]
  simp only [Clean, PlainText, hok, hmem, Bool.and_eq_true, or_imp, forall_and]
  tauto

/-- **A filled template needs no escape if and only if no text in it does.** -/
theorem clean_plug {tmpl : Template} (h : sealed tmpl = true) {args : List Bytes}
    (hn : holes tmpl = args.length) (rest : List Token) :
    Clean (plug tmpl args ++ rest) ↔ (∀ a ∈ args, PlainText a) ∧ Clean rest := by
  induction tmpl generalizing args with
  | nil =>
    have hargs : args = [] := List.length_eq_zero_iff.mp hn.symm
    simp [hargs, plug]
  | cons o tmpl ih =>
    cases o with
    | some t =>
      have hn' : holes tmpl = args.length := by
        rw [← hn, holes, holes, List.countP_cons_of_neg (by simp)]
      rw [plug, List.cons_append]
      cases t with
      | char b =>
        simp only [sealed, Bool.and_eq_true, Bool.not_eq_true', bne_iff_ne, ne_eq] at h
        rw [clean_char h.1.1 h.1.2, ih h.2 hn']
      | start | empty | close => rw [clean_tag rfl, ih h hn']
    | none =>
      cases tmpl with
      | nil => cases h
      | cons o' tmpl' =>
        cases o' with
        | none => cases h
        | some t =>
          rw [sealed, Bool.and_eq_true] at h
          cases args with
          | nil =>
            rw [holes, List.countP_cons_of_pos rfl] at hn
            cases hn
          | cons a args =>
            have hn' : holes (some t :: tmpl') = args.length := by
              rw [holes, List.countP_cons_of_pos rfl, List.length_cons] at hn
              exact Nat.succ.inj hn
            have hrec := ih h.2 hn'
            rw [plug, List.cons_append] at hrec
            rw [plug, plug, List.headD_cons, List.tail_cons, List.append_assoc, List.cons_append,
              clean_text h.1, hrec, List.forall_mem_cons, and_assoc]

/-! ## Filled templates are documents -/

instance (name : Bytes) : Decidable (ProperName name) := inferInstanceAs (Decidable (_ ∧ _))

instance (as : List (Bytes × Bytes)) : Decidable (ProperAttrs as) :=
  decidable_of_iff
    ((∀ a ∈ as, ProperName a.1) ∧ (∀ a ∈ as, a.2.all isAttrByte = true) ∧ (as.map (·.1)).Nodup)
    ⟨fun h => ⟨h.1, h.2.1, h.2.2⟩, fun h => ⟨h.names, h.values, h.nodup⟩⟩

instance : DecidablePred Token.Proper
  | .start _ _ | .empty _ _ => inferInstanceAs (Decidable (_ ∧ _))
  | .close name => inferInstanceAs (Decidable (ProperName name))
  | .char b => inferInstanceAs (Decidable (isXmlByte b = true))

theorem proper_plug {tmpl : Template} (h : ∀ o ∈ tmpl, ∀ t ∈ o, t.Proper) {args : List Bytes}
    (ha : ∀ a ∈ args, a.all isXmlByte = true) : ∀ t ∈ plug tmpl args, t.Proper := by
  induction tmpl generalizing args with
  | nil => exact fun _ h => (nomatch h)
  | cons o tmpl ih =>
    obtain ⟨ho, htmpl⟩ := List.forall_mem_cons.mp h
    cases o with
    | some t => exact List.forall_mem_cons.mpr ⟨ho t rfl, ih htmpl ha⟩
    | none =>
      cases args with
      | nil => exact ih htmpl ha
      | cons a args =>
        obtain ⟨hfirst, hrest⟩ := List.forall_mem_cons.mp ha
        intro t ht
        rcases List.mem_append.mp ht with ht | ht
        · obtain ⟨b, hb, rfl⟩ := List.mem_map.mp ht
          exact List.all_eq_true.mp hfirst b hb
        · exact ih htmpl hrest t ht

/-- The open elements behind a template with no text outside of them. -/
def balance : List Bytes → Bool → Template → Option (List Bytes × Bool)
  | stack, seen, [] => some (stack, seen)
  | [], false, some (.start name _) :: tmpl => balance [name] true tmpl
  | [], seen, some (.char b) :: tmpl => if isWhite b then balance [] seen tmpl else none
  | [], _, _ :: _ => none
  | name :: stack, seen, some (.start inner _) :: tmpl =>
    balance (inner :: name :: stack) seen tmpl
  | name :: stack, seen, some (.close other) :: tmpl =>
    if name == other then balance stack seen tmpl else none
  | name :: stack, seen, _ :: tmpl => balance (name :: stack) seen tmpl

theorem nested_text (name : Bytes) (stack : List Bytes) (seen : Bool) (v : Bytes)
    (ts : List Token) :
    nested (name :: stack) seen (text v ++ ts) = nested (name :: stack) seen ts := by
  induction v with
  | nil => rfl
  | cons b v ih => exact ih

theorem nested_plug {tmpl : Template} {stack stack' : List Bytes} {seen seen' : Bool}
    (h : balance stack seen tmpl = some (stack', seen')) (args : List Bytes) (rest : List Token) :
    nested stack seen (plug tmpl args ++ rest) = nested stack' seen' rest := by
  induction tmpl generalizing stack seen args with
  | nil =>
    cases stack <;> cases seen <;> cases h <;> rfl
  | cons o tmpl ih =>
    cases stack with
    | nil =>
      cases o with
      | none => cases seen <;> cases h
      | some t =>
        cases t with
        | start name as =>
          cases seen with
          | true => cases h
          | false => exact ih h args
        | char b =>
          rw [balance] at h
          split at h
          next hb => rw [plug, List.cons_append, nested, hb, Bool.true_and, ih h args]
          · cases h
        | empty | close => cases seen <;> cases h
    | cons name stack =>
      cases o with
      | none =>
        rw [plug, List.append_assoc, nested_text]
        exact ih h args.tail
      | some t =>
        cases t with
        | start | empty | char => exact ih h args
        | close other =>
          rw [balance] at h
          split at h
          next heq => rw [plug, List.cons_append, nested, heq, Bool.true_and, ih h args]
          · cases h

theorem count_text {t : Token} (h : t.isTag = true) (v : Bytes) : (text v).count t = 0 := by
  refine List.count_eq_zero.mpr fun ht => ?_
  obtain ⟨b, -, rfl⟩ := List.mem_map.mp ht
  cases h

/-- Filling a template adds no tags. -/
theorem count_plug {t : Token} (h : t.isTag = true) (tmpl : Template) (args : List Bytes) :
    (plug tmpl args).count t = tmpl.count (some t) := by
  induction tmpl generalizing args with
  | nil => rfl
  | cons o tmpl ih =>
    cases o with
    | some u => simp [plug, List.count_cons, ih]
    | none => simp [plug, ih, count_text h]

/-- **When a document written without escapes is read back.** -/
theorem read_document_iff {ts : List Token} (hp : ∀ t ∈ ts, t.Proper)
    (hn : nested [] false ts = true) {decl : Bytes}
    (hd : prolog (decl ++ print ts) = some (print ts)) :
    parse (decl ++ print ts) = some ts ↔ Clean ts := by
  have hparse : parse (decl ++ print ts) = some ts ↔ read (print ts) = some ts := by
    unfold parse
    rw [hd, Option.bind_some]
    cases hread : read (print ts) with
    | none => simp
    | some us =>
      by_cases hus : us = ts
      · simp [hus, hn]
      · cases hnu : nested [] false us <;> simp [hus, hnu]
  rw [hparse, read_print_iff hp]
  rfl

end FlowAlarm.Xml
