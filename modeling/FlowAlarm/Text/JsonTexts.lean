import FlowAlarm.Text.GoStruct

/-!
# The strings of a JSON tree

`Json.Texts P` says that every string of a tree has the property `P`, those of
member names aside. A reader whose string lexer yields only such strings yields
only such trees (`Dialect.parse_texts`), and decoding such a tree into a struct
keeps what storing in each field keeps (`decodeStruct_keeps`).
-/

namespace FlowAlarm.Text

/-- Every string value of the tree has the property. -/
inductive Json.Texts (P : Bytes → Prop) : Json → Prop where
  | null : Json.Texts P .null
  | bool (b : Bool) : Json.Texts P (.bool b)
  | num (lit : Bytes) : Json.Texts P (.num lit)
  | str {s : Bytes} : P s → Json.Texts P (.str s)
  | arr {xs : List Json} : (∀ x ∈ xs, Json.Texts P x) → Json.Texts P (.arr xs)
  | obj {ms : List (Bytes × Json)} : (∀ m ∈ ms, Json.Texts P m.2) → Json.Texts P (.obj ms)

/-! ## Reading -/

section

variable {D : Dialect} {P : Bytes → Prop} {α : Type} {Q : α → Prop}
  {p : Bytes → Option (α × Bytes)} {close : UInt8}

theorem parseSeq_forall (hp : ∀ {s x r}, p s = some (x, r) → Q x) {n : Nat} {s : Bytes}
    {xs : List α} {r : Bytes} (h : D.parseSeq p close n s = some (xs, r)) : ∀ x ∈ xs, Q x := by
  induction n generalizing s xs r with
  | zero => cases h
  | succ n ih =>
    simp only [Dialect.parseSeq] at h
    split at h
    · cases h
    next x s₁ hx =>
    split at h
    · cases h
    split at h
    · obtain ⟨⟨ys, r'⟩, hys, he⟩ := Option.map_eq_some_iff.mp h
      cases he
      exact List.forall_mem_cons.mpr ⟨hp hx, ih hys⟩
    · split at h
      · cases h
        exact List.forall_mem_cons.mpr ⟨hp hx, by simp⟩
      · cases h

theorem parseBody_forall (hp : ∀ {s x r}, p s = some (x, r) → Q x) {s : Bytes} {xs : List α}
    {r : Bytes} (h : D.parseBody p close s = some (xs, r)) : ∀ x ∈ xs, Q x := by
  unfold Dialect.parseBody at h
  split at h
  · cases h
  split at h
  · cases h
    simp
  · exact parseSeq_forall hp h

theorem parseMember_texts {p : Bytes → Option (Json × Bytes)}
    (hp : ∀ {s x r}, p s = some (x, r) → x.Texts P) {s : Bytes} {m : Bytes × Json} {r : Bytes}
    (h : D.parseMember p s = some (m, r)) : m.2.Texts P := by
  unfold Dialect.parseMember at h
  split at h
  · cases h
  split at h
  · split at h
    · cases h
    split at h
    · cases h
    split at h
    · obtain ⟨⟨x, r'⟩, hx, he⟩ := Option.map_eq_some_iff.mp h
      cases he
      exact hp hx
    · cases h
  · cases h

theorem parseScalar_texts (hlex : ∀ {s t r}, D.lexString s = some (t, r) → P t) {b : UInt8}
    {s r : Bytes} {v : Json} (h : D.parseScalar b s = some (v, r)) : v.Texts P := by
  unfold Dialect.parseScalar at h
  split at h
  · obtain ⟨_, _, he⟩ := Option.map_eq_some_iff.mp h
    cases he
    exact .null
  split at h
  · obtain ⟨_, _, he⟩ := Option.map_eq_some_iff.mp h
    cases he
    exact .bool true
  split at h
  · obtain ⟨_, _, he⟩ := Option.map_eq_some_iff.mp h
    cases he
    exact .bool false
  split at h
  · obtain ⟨⟨t, r'⟩, ht, he⟩ := Option.map_eq_some_iff.mp h
    cases he
    exact .str (hlex ht)
  split at h
  · obtain ⟨⟨l, r'⟩, -, he⟩ := Option.map_eq_some_iff.mp h
    cases he
    exact .num l
  · cases h

/-- **A reader hands on the property of its strings.** -/
theorem Dialect.parse_texts (hlex : ∀ {s t r}, D.lexString s = some (t, r) → P t) {d : Nat}
    {s r : Bytes} {v : Json} (h : D.parse d s = some (v, r)) : v.Texts P := by
  induction d generalizing s v r with
  | zero =>
    cases s with
    | nil => cases h
    | cons b s =>
      unfold Dialect.parse at h
      split at h
      · cases h
      split at h
      · cases h
      · exact parseScalar_texts hlex h
  | succ d ih =>
    cases s with
    | nil => cases h
    | cons b s =>
      unfold Dialect.parse at h
      split at h
      · obtain ⟨⟨xs, r'⟩, hxs, he⟩ := Option.map_eq_some_iff.mp h
        cases he
        exact .arr (parseBody_forall ih hxs)
      split at h
      · obtain ⟨⟨ms, r'⟩, hms, he⟩ := Option.map_eq_some_iff.mp h
        cases he
        exact .obj (parseBody_forall (parseMember_texts ih) hms)
      · exact parseScalar_texts hlex h

end

end FlowAlarm.Text

namespace FlowAlarm.GoJson

open FlowAlarm.Text

/-- A value that Go has read holds only UTF-8. -/
theorem readValue_texts {s : Bytes} {v : Json} (h : readValue s = some v) :
    v.Texts fun t => validUtf8 t = true := by
  unfold readValue at h
  split at h
  · cases h
  next j r hj =>
  split at h
  · cases h
    refine Dialect.parse_texts (fun {s t r} hlex => ?_) hj
    have hlex : lexQuoted unquote s = some (t, r) := hlex
    unfold lexQuoted at hlex
    split at hlex
    · cases hlex
    · obtain ⟨t', ht, he⟩ := Option.map_eq_some_iff.mp hlex
      cases he
      exact unquote_valid ht
  · cases h

/-! ## Decoding into structs -/

section

variable {σ τ : Type} {P : Bytes → Prop} {K : σ → Prop} {L : τ → Prop}

/-- Storing in the field keeps `K`, for values whose strings have the property `P`. -/
def Slot.Keeps (P : Bytes → Prop) (K : σ → Prop) (f : Slot σ) : Prop :=
  ∀ ⦃v st st'⦄, v.Texts P → K st → f.set v st = some st' → K st'

/-- **What every field keeps, decoding keeps.** -/
theorem decodeStruct_keeps {fields : List (Slot σ)} (hf : ∀ f ∈ fields, f.Keeps P K) {v : Json}
    {st st' : σ} (hv : v.Texts P) (hst : K st) (h : decodeStruct fields st v = some st') :
    K st' := by
  cases hv with
  | null =>
    cases h
    exact hst
  | bool | num | str | arr => cases h
  | @obj ms hms =>
    replace h : ms.foldlM (storeMember fields) st = some st' := h
    induction ms generalizing st with
    | nil =>
      cases h
      exact hst
    | cons m ms ih =>
      obtain ⟨hm, hms⟩ := List.forall_mem_cons.mp hms
      rw [List.foldlM_cons, Option.bind_eq_bind, Option.bind_eq_some_iff] at h
      obtain ⟨st₁, hst₁, hrest⟩ := h
      have hkept : K st₁ := by
        unfold storeMember at hst₁
        split at hst₁
        · cases hst₁
          exact hst
        next f hfind =>
          refine hf f ?_ hm hst hst₁
          unfold findField at hfind
          rcases Option.or_eq_some_iff.mp hfind with hfind | ⟨-, hfind⟩
          · exact List.mem_of_find?_eq_some hfind
          · exact List.mem_of_find?_eq_some hfind
      exact ih hkept hms hrest

theorem keeps_scalar {α : Type} {read : Json → Option α} {name : Bytes} {put : α → σ → σ}
    (h : ∀ v a st, v.Texts P → read v = some a → K st → K (put a st)) :
    (scalarField read name put).Keeps P K := by
  intro v st st' hv hst hset
  have read_kept : (read v).map (put · st) = some st' → K st' := fun hmap => by
    obtain ⟨a, ha, rfl⟩ := Option.map_eq_some_iff.mp hmap
    exact h v a st hv ha hst
  cases v with
  | null =>
    cases hset
    exact hst
  | bool | num | str | arr | obj => exact read_kept hset

theorem keeps_raw {name : Bytes} {put : Json → σ → σ}
    (h : ∀ v st, v.Texts P → K st → K (put v st)) : (rawField name put).Keeps P K := by
  intro v st st' hv hst hset
  cases hset
  exact h v st hv hst

theorem keeps_struct {decode : τ → Json → Option τ} {name : Bytes} {get : σ → τ}
    {put : τ → σ → σ} (hd : ∀ t v t', v.Texts P → L t → decode t v = some t' → L t')
    (hget : ∀ st, K st → L (get st)) (hput : ∀ t st, L t → K st → K (put t st)) :
    (structField decode name get put).Keeps P K := by
  intro v st st' hv hst hset
  obtain ⟨t, ht, rfl⟩ := Option.map_eq_some_iff.mp hset
  exact hput t st (hd _ _ _ hv (hget st hst) ht) hst

/-- A pointer that `K` says nothing about. -/
theorem keeps_pointer {decode : τ → Json → Option τ} {zero : τ} {name : Bytes}
    {get : σ → Option τ} {put : Option τ → σ → σ} (h : ∀ o st, K st → K (put o st)) :
    (pointerField decode zero name get put).Keeps P K := by
  intro v st st' _ hst hset
  have decoded : (decode ((get st).getD zero) v).map (fun t => put (some t) st) = some st' →
      K st' := fun hmap => by
    obtain ⟨t, -, rfl⟩ := Option.map_eq_some_iff.mp hmap
    exact h _ _ hst
  cases v with
  | null =>
    cases hset
    exact h _ _ hst
  | bool | num | str | arr | obj => exact decoded hset

theorem decodeElems_keeps {decode : τ → Json → Option τ} {zero : τ}
    (hd : ∀ t v t', v.Texts P → L t → decode t v = some t' → L t') (hz : L zero)
    {old ts : List τ} {vs : List Json} (hold : ∀ t ∈ old, L t) (hvs : ∀ v ∈ vs, v.Texts P)
    (h : decodeElems decode zero old vs = some ts) : ∀ t ∈ ts, L t := by
  induction vs generalizing old ts with
  | nil =>
    cases h
    simp
  | cons v vs ih =>
    obtain ⟨hv, hvs⟩ := List.forall_mem_cons.mp hvs
    simp only [decodeElems] at h
    split at h
    next t ts' ht hts =>
      cases h
      refine List.forall_mem_cons.mpr ⟨hd _ _ _ hv ?_ ht,
        ih (fun t ht => hold t (List.mem_of_mem_tail ht)) hvs hts⟩
      cases old with
      | nil => exact hz
      | cons t old => exact hold t List.mem_cons_self
    · cases h

theorem keeps_slice {decode : τ → Json → Option τ} {zero : τ} {name : Bytes}
    {get : σ → Option (List τ)} {put : Option (List τ) → σ → σ}
    (hd : ∀ t v t', v.Texts P → L t → decode t v = some t' → L t') (hz : L zero)
    (hget : ∀ st, K st → ∀ ts ∈ get st, ∀ t ∈ ts, L t)
    (hput : ∀ o st, (∀ ts ∈ o, ∀ t ∈ ts, L t) → K st → K (put o st)) :
    (sliceField decode zero name get put).Keeps P K := by
  intro v st st' hv hst hset
  cases hv with
  | null =>
    cases hset
    exact hput none st (by simp) hst
  | bool | num | str | obj => cases hset
  | @arr vs hvs =>
    obtain ⟨ts, hts, rfl⟩ := Option.map_eq_some_iff.mp hset
    refine hput _ st (fun ts' hts' => ?_) hst
    cases hts'
    refine decodeElems_keeps hd hz (fun t ht => ?_) hvs hts
    cases hg : get st with
    | none =>
      rw [hg] at ht
      cases ht
    | some old =>
      rw [hg] at ht
      exact hget st hst old hg t ht

end

/-! ## Values in range -/

theorem readUint_lt {bits n : Nat} {v : Json} (h : readUint bits v = some n) : n < 2 ^ bits := by
  unfold readUint at h
  split at h
  · unfold parseUint at h
    split at h
    next hlit =>
      cases h
      exact hlit.2.2
    · cases h
  · cases h

theorem readInt_range {bits : Nat} {z : Int} {v : Json} (h : readInt bits v = some z) :
    -(2 ^ (bits - 1) : Int) ≤ z ∧ z < 2 ^ (bits - 1) := by
  unfold readInt at h
  split at h
  · unfold parseInt at h
    split at h
    · cases h
    · obtain ⟨hlit, he⟩ := Option.ite_none_right_eq_some.mp h
      cases he
      exact hlit.2.2
  · cases h

theorem readString_texts {P : Bytes → Prop} {s : Bytes} {v : Json} (hv : v.Texts P)
    (h : readString v = some s) : P s := by
  cases hv with
  | str hs =>
    cases h
    exact hs
  | null | bool | num | arr | obj => cases h

end FlowAlarm.GoJson
