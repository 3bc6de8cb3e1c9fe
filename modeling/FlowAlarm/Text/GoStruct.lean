import FlowAlarm.Text.GoJson
import Mathlib.Data.List.ReduceOption

/-!
# Structs in Go's JSON

A struct is decoded member by member: a member is stored in the field of its
name, found exactly or by case folding, and a null leaves the field as it was.
A struct is written as the list of its present members (`omitempty` leaves
zero values out). `stores_nil`, `Stores.cons` and the `store_` lemmas chain the
decoding of a written struct, `ReadsMembers.cons` and `ReadsMembers.omit` its
reading.
-/

namespace FlowAlarm.GoJson

open FlowAlarm.Text

/-- A field: its name and how a value is stored; `none` is a type error. -/
structure Slot (σ : Type) where
  name : Bytes
  set : Json → σ → Option σ

/-- `foldName` behind the next `k` bytes. -/
def foldFrom : Nat → Bytes → Bytes
  | _, [] => []
  | k + 1, _ :: s => foldFrom k s
  | 0, b :: s =>
    if b = 0xC5 ∧ s.take 1 = [0xBF] then 0x73 :: foldFrom 1 s
    else if b = 0xE2 ∧ s.take 2 = [0x84, 0xAA] then 0x6B :: foldFrom 2 s
    else toLower b :: foldFrom 0 s

/-- Case folding of member names; the Kelvin sign and the long s fold to letters. -/
def foldName (s : Bytes) : Bytes := foldFrom 0 s

section

variable {σ τ : Type}

def findField (fields : List (Slot σ)) (name : Bytes) : Option (Slot σ) :=
  (fields.find? fun f => f.name == name).or
    (fields.find? fun f => foldName f.name == foldName name)

def storeMember (fields : List (Slot σ)) (st : σ) (m : Bytes × Json) : Option σ :=
  match findField fields m.1 with
  | none => some st
  | some f => f.set m.2 st

/-- Decoding a value into a struct that holds `st`. -/
def decodeStruct (fields : List (Slot σ)) (st : σ) : Json → Option σ
  | .null => some st
  | .obj ms => ms.foldlM (storeMember fields) st
  | _ => none

/-! ## Kinds of fields -/

/-- A field set from the values `read` accepts, and left alone by null. -/
def scalarField {α : Type} (read : Json → Option α) (name : Bytes) (put : α → σ → σ) : Slot σ :=
  ⟨name, fun v st =>
    match v with
    | .null => some st
    | v => (read v).map (put · st)⟩

def readUint (bits : Nat) : Json → Option Nat
  | .num lit => parseUint bits lit
  | _ => none

def readInt (bits : Nat) : Json → Option Int
  | .num lit => parseInt bits lit
  | _ => none

def readCount : Json → Option Int
  | .num lit => parseCount lit
  | _ => none

def readString : Json → Option Bytes
  | .str s => some s
  | _ => none

def readBool : Json → Option Bool
  | .bool b => some b
  | _ => none

/-- A raw message keeps the value, null included. -/
def rawField (name : Bytes) (put : Json → σ → σ) : Slot σ := ⟨name, fun v st => some (put v st)⟩

/-- A nested struct. -/
def structField (decode : τ → Json → Option τ) (name : Bytes) (get : σ → τ) (put : τ → σ → σ) :
    Slot σ :=
  ⟨name, fun v st => (decode (get st) v).map (put · st)⟩

/-- A pointer to a struct. -/
def pointerField (decode : τ → Json → Option τ) (zero : τ) (name : Bytes) (get : σ → Option τ)
    (put : Option τ → σ → σ) : Slot σ :=
  ⟨name, fun v st =>
    match v with
    | .null => some (put none st)
    | v => (decode ((get st).getD zero) v).map fun t => put (some t) st⟩

/-- An element of a slice of integers. -/
def decodeUint (bits : Nat) (old : Nat) : Json → Option Nat
  | .null => some old
  | v => readUint bits v

/-- The elements of an array, decoded over those already there. -/
def decodeElems (decode : τ → Json → Option τ) (zero : τ) : List τ → List Json → Option (List τ)
  | _, [] => some []
  | old, v :: vs =>
    match decode (old.head?.getD zero) v, decodeElems decode zero old.tail vs with
    | some t, some ts => some (t :: ts)
    | _, _ => none

/-- A slice; `none` is nil. -/
def sliceField (decode : τ → Json → Option τ) (zero : τ) (name : Bytes) (get : σ → Option (List τ))
    (put : Option (List τ) → σ → σ) : Slot σ :=
  ⟨name, fun v st =>
    match v with
    | .null => some (put none st)
    | .arr vs => (decodeElems decode zero ((get st).getD []) vs).map fun ts => put (some ts) st
    | _ => none⟩

/-! ## Written structs -/

/-- A member that is written only if the value is not zero. -/
def omitEmpty (zero : Bool) (name : Bytes) (v : Json) : Option (Bytes × Json) :=
  if zero then none else some (name, v)

def uintValue (n : Nat) : Json := .num (dec n)

def intValue (z : Int) : Json := .num (decInt z)

/-- Storing an optional member. -/
def storeOption (fields : List (Slot σ)) (st : σ) : Option (Bytes × Json) → Option σ
  | none => some st
  | some m => storeMember fields st m

/-- The members `ms`, stored one after the other, take the struct from `st` to `st'`. -/
def Stores (fields : List (Slot σ)) (ms : List (Option (Bytes × Json))) (st st' : σ) : Prop :=
  ms.reduceOption.foldlM (storeMember fields) st = some st'

theorem stores_nil (fields : List (Slot σ)) (st : σ) : Stores fields [] st st := rfl

theorem Stores.cons {fields : List (Slot σ)} {m : Option (Bytes × Json)}
    {ms : List (Option (Bytes × Json))} {st st' st'' : σ} (h : storeOption fields st m = some st')
    (hs : Stores fields ms st' st'') : Stores fields (m :: ms) st st'' := by
  unfold Stores at hs ⊢
  cases m with
  | none =>
    obtain rfl := Option.some.inj h
    exact hs
  | some m =>
    have h : storeMember fields st m = some st' := h
    rw [List.reduceOption_cons_of_some, List.foldlM_cons, h]
    exact hs

/-- With distinct names, a member is stored by the field it is named after. -/
theorem storeMember_field {fields : List (Slot σ)} (hn : (fields.map (·.name)).Nodup) {i : Nat}
    {f : Slot σ} (hf : fields[i]? = some f) (v : Json) (st : σ) :
    storeMember fields st (f.name, v) = f.set v st := by
  have hfind : fields.find? (fun g => g.name == f.name) = some f := by
    have hnames : ((fields.map fun g => (g.name, g)).map (·.1)).Nodup := by rwa [List.map_map]
    have hget : (fields.map fun g => (g.name, g))[i]? = some (f.name, f) := by
      rw [List.getElem?_map, hf, Option.map_some]
    have := find?_name hnames hget
    rw [List.find?_map, Option.map_eq_some_iff] at this
    obtain ⟨g, hg, he⟩ := this
    have hg' : fields.find? (fun g => g.name == f.name) = some g := hg
    rw [hg']
    exact congrArg some (congrArg Prod.snd he)
  simp only [storeMember, findField, hfind, Option.some_or]

/-- One stored member, present or left out because it is zero. -/
theorem store_present {fields : List (Slot σ)} (hn : (fields.map (·.name)).Nodup) {i : Nat}
    {f : Slot σ} (hf : fields[i]? = some f) {v : Json} {st st' : σ} (h : f.set v st = some st') :
    storeOption fields st (some (f.name, v)) = some st' := by
  rw [storeOption, storeMember_field hn hf, h]

theorem store_omitEmpty {fields : List (Slot σ)} (hn : (fields.map (·.name)).Nodup) {i : Nat}
    {f : Slot σ} (hf : fields[i]? = some f) {v : Json} {zero : Bool} {st st' : σ}
    (h : f.set v st = some st') (hz : zero = true → st' = st) :
    storeOption fields st (omitEmpty zero f.name v) = some st' := by
  cases zero with
  | true => rw [hz rfl]; rfl
  | false => exact store_present hn hf h

/-- A scalar that is left out when it is zero. -/
theorem store_omitZero {fields : List (Slot σ)} (hn : (fields.map (·.name)).Nodup) {i : Nat}
    {α : Type} [BEq α] [LawfulBEq α] {read : Json → Option α} {name : Bytes} {put : α → σ → σ}
    (hf : fields[i]? = some (scalarField read name put)) {v : Json} {a z : α} {st : σ}
    (h : (scalarField read name put).set v st = some (put a st)) (hz : put z st = st) :
    storeOption fields st (omitEmpty (a == z) name v) = some (put a st) := by
  refine store_omitEmpty hn hf h fun he => ?_
  rw [beq_iff_eq.mp he, hz]

/-- Where a struct decodes, every member was stored. -/
theorem stored_of_fold {fields : List (Slot σ)} {ms : List (Bytes × Json)} {st st' : σ}
    (h : ms.foldlM (storeMember fields) st = some st') {m : Bytes × Json} (hm : m ∈ ms) :
    ∃ s s', storeMember fields s m = some s' := by
  induction ms generalizing st with
  | nil => cases hm
  | cons n ms ih =>
    rw [List.foldlM_cons, Option.bind_eq_bind, Option.bind_eq_some_iff] at h
    obtain ⟨s, hs, hrest⟩ := h
    rcases List.mem_cons.mp hm with rfl | hm
    · exact ⟨st, s, hs⟩
    · exact ih hrest hm

theorem set_num {α : Type} {read : Json → Option α} {name lit : Bytes} {put : α → σ → σ} {a : α}
    (h : read (.num lit) = some a) (st : σ) :
    (scalarField read name put).set (.num lit) st = some (put a st) := by
  simp only [scalarField, h, Option.map_some]

theorem read_of_set {α : Type} {read : Json → Option α} {name lit : Bytes} {put : α → σ → σ}
    {st st' : σ} (h : (scalarField read name put).set (.num lit) st = some st') :
    ∃ a, read (.num lit) = some a := by
  simp only [scalarField, Option.map_eq_some_iff] at h
  exact ⟨h.choose, h.choose_spec.1⟩

theorem set_uint {bits n : Nat} {name : Bytes} {put : Nat → σ → σ} (h : n < 2 ^ bits) (st : σ) :
    (scalarField (readUint bits) name put).set (uintValue n) st = some (put n st) :=
  set_num (parseUint_dec h) st

theorem set_int {bits : Nat} {z : Int} {name : Bytes} {put : Int → σ → σ}
    (h : -(2 ^ (bits - 1) : Int) ≤ z ∧ z < 2 ^ (bits - 1)) (st : σ) :
    (scalarField (readInt bits) name put).set (intValue z) st = some (put z st) :=
  set_num (parseInt_decInt h.1 h.2) st

theorem set_count (z : Int) {name : Bytes} {put : Int → σ → σ} (st : σ) :
    (scalarField readCount name put).set (intValue z) st = some (put z st) :=
  set_num (parseCount_decInt z) st

theorem set_string (s : Bytes) {name : Bytes} {put : Bytes → σ → σ} (st : σ) :
    (scalarField readString name put).set (.str s) st = some (put s st) := rfl

theorem decodeElems_map {α : Type} {decode : τ → Json → Option τ} {zero : τ} (enc : α → Json)
    (val : α → τ) {xs : List α} (h : ∀ x ∈ xs, decode zero (enc x) = some (val x)) :
    decodeElems decode zero [] (xs.map enc) = some (xs.map val) := by
  induction xs with
  | nil => rfl
  | cons x xs ih =>
    obtain ⟨hx, hxs⟩ := List.forall_mem_cons.mp h
    have hx' : decode (([] : List τ).head?.getD zero) (enc x) = some (val x) := hx
    rw [List.map_cons, decodeElems, hx', List.tail_nil, ih hxs, List.map_cons]

/-! ## Reading written members -/

/-- Written members are read as members. -/
def ReadsMembers (d : Nat) (ms ns : List (Option (Bytes × Json))) : Prop :=
  List.Forall₂ (fun m n => StrReads go escape m.1 n.1 ∧ Reads go escape d m.2 n.2)
    ms.reduceOption ns.reduceOption

theorem readsMembers_nil (d : Nat) : ReadsMembers d [] [] := .nil

theorem strReads_valid {s : Bytes} (h : validUtf8 s = true) : StrReads go escape s s := by
  have := strReads_escape s
  rwa [sanitize_eq_self.mpr h] at this

theorem ReadsMembers.cons {d : Nat} {name : Bytes} {v w : Json}
    {ms ns : List (Option (Bytes × Json))} (hname : validUtf8 name = true)
    (h : Reads go escape d v w) (hs : ReadsMembers d ms ns) :
    ReadsMembers d (some (name, v) :: ms) (some (name, w) :: ns) := by
  unfold ReadsMembers
  rw [List.reduceOption_cons_of_some, List.reduceOption_cons_of_some]
  exact .cons ⟨strReads_valid hname, h⟩ hs

theorem ReadsMembers.omit {d : Nat} {name : Bytes} {v w : Json} {zero : Bool}
    {ms ns : List (Option (Bytes × Json))} (hname : validUtf8 name = true)
    (h : Reads go escape d v w) (hs : ReadsMembers d ms ns) :
    ReadsMembers d (omitEmpty zero name v :: ms) (omitEmpty zero name w :: ns) := by
  cases zero with
  | true => exact hs
  | false => exact hs.cons hname h

theorem reads_uint (d n : Nat) : Reads go escape d (uintValue n) (uintValue n) := by
  simp only [uintValue, Reads, true_and]
  exact numReads_dec n

theorem reads_int (d : Nat) (z : Int) : Reads go escape d (intValue z) (intValue z) := by
  simp only [intValue, Reads, true_and]
  exact numReads_decInt z

theorem reads_string (d : Nat) (s : Bytes) :
    Reads go escape d (.str s) (.str (sanitize s)) := by
  simp only [Reads]
  exact strReads_escape s

theorem reads_bool (d : Nat) (b : Bool) : Reads go escape d (.bool b) (.bool b) := by
  simp only [Reads]

theorem reads_obj {d : Nat} {ms ns : List (Option (Bytes × Json))} (h : ReadsMembers d ms ns) :
    Reads go escape (d + 1) (.obj ms.reduceOption) (.obj ns.reduceOption) := by
  simp only [Reads]
  exact h

theorem reads_arr {α : Type} {d : Nat} {f g : α → Json} {xs : List α}
    (h : ∀ x ∈ xs, Reads go escape d (f x) (g x)) :
    Reads go escape (d + 1) (.arr (xs.map f)) (.arr (xs.map g)) := by
  simp only [Reads]
  rw [List.forall₂_map_left_iff, List.forall₂_map_right_iff, List.forall₂_same]
  exact h

/-! ## Control bytes -/

/-- No literal of the tree has the byte. -/
def Plain (x : UInt8) (j : Json) : Prop := ∀ l ∈ j.lits, x ∉ l

theorem plain_uint {x : UInt8} (hx : isDigit x = false) (n : Nat) : Plain x (uintValue n) := by
  intro l hl hm
  obtain rfl : l = dec n := by simpa [uintValue, Json.lits] using hl
  rw [isDigit_of_mem_dec hm] at hx
  cases hx

theorem plain_int {x : UInt8} (hx : isDigit x = false) (h' : x ≠ 0x2D) (z : Int) :
    Plain x (intValue z) := by
  intro l hl hm
  obtain rfl : l = decInt z := by simpa [intValue, Json.lits] using hl
  have hdec : x ∉ dec z.natAbs := fun hm => by
    rw [isDigit_of_mem_dec hm] at hx
    cases hx
  unfold decInt at hm
  split at hm
  · exact (List.mem_cons.mp hm).elim h' hdec
  · exact hdec hm

theorem plain_str (x : UInt8) (s : Bytes) : Plain x (.str s) := by simp [Plain, Json.lits]

theorem plain_bool (x : UInt8) (b : Bool) : Plain x (.bool b) := by simp [Plain, Json.lits]

theorem plain_null (x : UInt8) : Plain x .null := by simp [Plain, Json.lits]

theorem plain_arr {x : UInt8} {js : List Json} (h : ∀ j ∈ js, Plain x j) : Plain x (.arr js) := by
  have key : ∀ l ∈ Json.litsElems js, x ∉ l := by
    induction js with
    | nil => simp [Json.litsElems]
    | cons j js ih =>
      obtain ⟨hj, hjs⟩ := List.forall_mem_cons.mp h
      intro l hl
      rw [Json.litsElems, List.mem_append] at hl
      exact hl.elim (hj l) (ih hjs l)
  simpa [Plain, Json.lits] using key

/-- Members, present or left out, whose values are plain. -/
def PlainMembers (x : UInt8) (ms : List (Option (Bytes × Json))) : Prop :=
  ∀ o ∈ ms, ∀ m ∈ o, Plain x m.2

theorem plainMembers_nil (x : UInt8) : PlainMembers x [] := by simp [PlainMembers]

theorem PlainMembers.cons {x : UInt8} {name : Bytes} {v : Json} {ms : List (Option (Bytes × Json))}
    (h : Plain x v) (hs : PlainMembers x ms) : PlainMembers x (some (name, v) :: ms) :=
  List.forall_mem_cons.mpr ⟨by rintro m ⟨⟩; exact h, hs⟩

theorem PlainMembers.omit {x : UInt8} {name : Bytes} {v : Json} {zero : Bool}
    {ms : List (Option (Bytes × Json))} (h : Plain x v) (hs : PlainMembers x ms) :
    PlainMembers x (omitEmpty zero name v :: ms) := by
  cases zero with
  | true => exact List.forall_mem_cons.mpr ⟨by rintro m ⟨⟩, hs⟩
  | false => exact hs.cons h

theorem plain_obj {x : UInt8} {ms : List (Option (Bytes × Json))} (h : PlainMembers x ms) :
    Plain x (.obj ms.reduceOption) := by
  have key : ∀ l ∈ Json.litsMembers ms.reduceOption, x ∉ l := by
    induction ms with
    | nil => simp [Json.litsMembers]
    | cons o ms ih =>
      obtain ⟨ho, hms⟩ := List.forall_mem_cons.mp h
      cases o with
      | none => exact ih hms
      | some m =>
        intro l hl
        rw [List.reduceOption_cons_of_some, Json.litsMembers, List.mem_append] at hl
        exact hl.elim (ho m rfl l) (ih hms l)
  simpa [Plain, Json.lits] using key

theorem not_mem_marshal {x : UInt8} (hx : x < 0x20) {j : Json} (h : Plain x j) : x ∉ marshal j :=
  Json.not_mem_print hx (not_mem_escape hx) j h

end

end FlowAlarm.GoJson
