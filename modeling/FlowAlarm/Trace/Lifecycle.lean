import Mathlib.Data.List.Basic

/-!
# Lifecycles in a record stream

A stream of records belongs to numbered lifecycles, one open at a time. `Step`
is the automaton that opens, continues and closes them; `Reading` says how a
record is read. A run from the initial state is a concatenation of blocks, all
closed but possibly the last (`Decomposition`), and block `j` is named `j + 1`:

  records:   [o u u c] [o c] [o u      (o opens, u continues, c closes)
  names:        1        2     3
-/

namespace FlowAlarm.Trace

inductive Kind where
  | opening | ongoing | closing
  deriving DecidableEq, Repr

/-- How the automaton reads a record. -/
structure Reading (ρ ι : Type) where
  kind : ρ → Option Kind
  seq : ρ → Nat
  /-- What all records of one lifecycle share. -/
  ident : ρ → ι
  /-- `named i n`: `i` is an identity the `n`-th lifecycle may have. -/
  named : ι → Nat → Prop

/-- How many lifecycles were opened, and the open one with its last sequence number. -/
structure St (ι : Type) where
  count : Nat
  live : Option (ι × Nat)

variable {ρ ι : Type} (R : Reading ρ ι)

inductive Step : St ι → ρ → St ι → Prop where
  | opening {n : Nat} {r : ρ} (kind : R.kind r = some .opening) (seq : R.seq r = 1)
      (named : R.named (R.ident r) (n + 1)) : Step ⟨n, none⟩ r ⟨n + 1, some (R.ident r, 1)⟩
  | ongoing {n k : Nat} {i : ι} {r : ρ} (kind : R.kind r = some .ongoing) (seq : R.seq r = k + 1)
      (ident : R.ident r = i) : Step ⟨n, some (i, k)⟩ r ⟨n, some (i, k + 1)⟩
  | closing {n k : Nat} {i : ι} {r : ρ} (kind : R.kind r = some .closing) (seq : R.seq r = k + 1)
      (ident : R.ident r = i) : Step ⟨n, some (i, k)⟩ r ⟨n, none⟩

inductive Run : St ι → List ρ → St ι → Prop where
  | nil (s : St ι) : Run s [] s
  | cons {s t u : St ι} {r : ρ} {rs : List ρ} : Step R s r t → Run t rs u → Run s (r :: rs) u

variable {R}

theorem Run.append {s t u : St ι} {rs ts : List ρ} (h : Run R s rs t) (h' : Run R t ts u) :
    Run R s (rs ++ ts) u := by
  induction h with
  | nil => exact h'
  | cons hs _ ih => exact .cons hs (ih h')

theorem Run.one {s t : St ι} {r : ρ} (h : Step R s r t) : Run R s [r] t := .cons h (.nil t)

/-- A record's number in its lifecycle is at most its number in the run. -/
theorem Run.seq_le {s t : St ι} {rs : List ρ} (h : Run R s rs t) {n : Nat}
    (hs : ∀ p ∈ s.live, p.2 ≤ n) : ∀ m r, rs[m]? = some r → R.seq r ≤ n + m + 1 := by
  induction h generalizing n with
  | nil => simp
  | @cons s t u r rs hstep _ ih =>
    have hfirst : R.seq r ≤ n + 1 ∧ ∀ p ∈ t.live, p.2 ≤ n + 1 := by
      cases hstep with
      | opening kind seq named => exact ⟨by omega, by simp⟩
      | ongoing kind seq ident =>
        have hn := hs _ rfl
        simp only at hn
        exact ⟨by omega, by simp; omega⟩
      | closing kind seq ident =>
        have hn := hs _ rfl
        simp only at hn
        exact ⟨by omega, by simp⟩
    intro m r hr
    cases m with
    | zero =>
      cases hr
      exact hfirst.1
    | succ m =>
      have := ih hfirst.2 m r hr
      omega

/-- The states a run passes. -/
theorem Run.take {s t : St ι} {rs : List ρ} (h : Run R s rs t) (n : Nat) :
    ∃ u, Run R s (rs.take n) u := by
  induction h generalizing n with
  | nil s => exact ⟨s, by simpa using .nil s⟩
  | @cons s t u r rs hstep _ ih =>
    cases n with
    | zero => exact ⟨s, .nil s⟩
    | succ n =>
      obtain ⟨v, hv⟩ := ih n
      exact ⟨v, .cons hstep hv⟩

/-! ## Opening and closing records -/

/-- The records of a run that are read as `k`. -/
def readAs (R : Reading ρ ι) (k : Kind) (rs : List ρ) : List ρ :=
  rs.filter fun r => R.kind r = some k

theorem readAs_cons_self {k : Kind} {r : ρ} (h : R.kind r = some k) (rs : List ρ) :
    readAs R k (r :: rs) = r :: readAs R k rs :=
  List.filter_cons_of_pos (by simp [h])

theorem readAs_cons_ne {k k' : Kind} {r : ρ} (h : R.kind r = some k') (hne : k' ≠ k)
    (rs : List ρ) : readAs R k (r :: rs) = readAs R k rs :=
  List.filter_cons_of_neg (by simp [h, hne])

/-- The opening records of a run have the names after those of the lifecycles before, in order. -/
theorem Run.opening_named {s t : St ι} {rs : List ρ} (h : Run R s rs t) {n : Nat} {r : ρ}
    (hr : (readAs R .opening rs)[n]? = some r) : R.named (R.ident r) (s.count + n + 1) := by
  induction h generalizing n with
  | nil => simp [readAs] at hr
  | @cons s t u x rs hstep _ ih =>
    cases hstep with
    | @opening c _ kind seq named =>
      rw [readAs_cons_self kind] at hr
      cases n with
      | zero =>
        cases hr
        exact named
      | succ n =>
        have := ih hr
        rwa [show c + 1 + n + 1 = c + (n + 1) + 1 by omega] at this
    | ongoing kind seq ident =>
      rw [readAs_cons_ne kind (by decide)] at hr
      exact ih hr
    | closing kind seq ident =>
      rw [readAs_cons_ne kind (by decide)] at hr
      exact ih hr

/-- The closing records of a run close what is open at its start or was opened in it, in order. -/
theorem Run.closing_sublist {s t : St ι} {rs : List ρ} (h : Run R s rs t) :
    ((readAs R .closing rs).map R.ident).Sublist
      ((s.live.map (·.1)).toList ++ (readAs R .opening rs).map R.ident) := by
  induction h with
  | nil s => exact List.nil_sublist _
  | @cons s t u x rs hstep _ ih =>
    cases hstep with
    | opening kind seq named =>
      rw [readAs_cons_self kind, readAs_cons_ne kind (by decide)]
      exact ih
    | ongoing kind seq ident =>
      rw [readAs_cons_ne kind (by decide), readAs_cons_ne kind (by decide)]
      exact ih
    | closing kind seq ident =>
      rw [readAs_cons_self kind, readAs_cons_ne kind (by decide), List.map_cons, ident]
      exact ih.cons_cons _

/-! ## Pairing -/

/-- The name left open by a stream of marks whose opening and closing marks alternate, each closing
one with the name of the opening one before it; `live` is the name open at its start. -/
def pairing {κ : Type} [DecidableEq κ] : Option κ → List (Option Kind × κ) → Option (Option κ)
  | live, [] => some live
  | none, (some .opening, k) :: ms => pairing (some k) ms
  | some _, (some .opening, _) :: _ => none
  | none, (some .closing, _) :: _ => none
  | some k', (some .closing, k) :: ms => if k = k' then pairing none ms else none
  | live, (some .ongoing, _) :: ms => pairing live ms
  | live, (none, _) :: ms => pairing live ms

section Pairing

variable {κ : Type} [DecidableEq κ]

theorem pairing_append (live : Option κ) (ms ns : List (Option Kind × κ)) :
    pairing live (ms ++ ns) = (pairing live ms).bind (pairing · ns) := by
  induction ms generalizing live with
  | nil => cases live <;> rfl
  | cons m ms ih =>
    obtain ⟨kind, k⟩ := m
    rw [List.cons_append]
    rcases kind with _ | _ | _ | _ <;> rcases live with _ | k' <;> simp only [pairing, ih] <;>
      try rfl
    split <;> rfl

/-- The marks of a run pair up, from the lifecycle open at its start to the one at its end. -/
theorem Run.pairing {s t : St ι} {rs : List ρ} (h : Run R s rs t) (key : ρ → κ) (name : ι → κ)
    (hname : ∀ r, name (R.ident r) = key r) :
    Trace.pairing (s.live.map (name ·.1)) (rs.map fun r => (R.kind r, key r)) =
      some (t.live.map (name ·.1)) := by
  induction h with
  | nil s => cases s.live <;> rfl
  | @cons s t u r rs hstep _ ih =>
    rw [List.map_cons, ← ih]
    cases hstep with
    | opening kind seq named => simp [kind, Trace.pairing, hname]
    | ongoing kind seq ident => simp [kind, Trace.pairing]
    | closing kind seq ident => simp [kind, Trace.pairing, ← hname, ident]

/-- A run from a closed state starts with an opening record. -/
theorem Run.head_opening {n : Nat} {t : St ι} {r : ρ} {rs : List ρ}
    (h : Run R ⟨n, none⟩ (r :: rs) t) : R.kind r = some .opening := by
  cases h with
  | cons hstep _ =>
    cases hstep with
    | opening kind seq named => exact kind

end Pairing

/-! ## Blocks -/

variable (R)

/-- A block still open after `k` records. -/
structure OpenBlock (i : ι) (k : Nat) (rs : List ρ) : Prop where
  seqs : rs.map R.seq = List.range' 1 k
  kinds : rs.map R.kind = some .opening :: List.replicate (k - 1) (some .ongoing)
  ident : ∀ r ∈ rs, R.ident r = i

/-- A complete block: open, then its closing record. -/
def ClosedBlock (rs : List ρ) : Prop :=
  ∃ i k init last, rs = init ++ [last] ∧ OpenBlock R i k init ∧
    R.kind last = some .closing ∧ R.seq last = k + 1 ∧ R.ident last = i

/-- The stream `rs` as closed blocks and an open rest, in state `s`. -/
structure Decomposition (rs : List ρ) (s : St ι) (blocks : List (List ρ)) (rest : List ρ) :
    Prop where
  eq : rs = blocks.flatten ++ rest
  closed : ∀ b ∈ blocks, ClosedBlock R b
  live : match s.live with
    | none => rest = [] ∧ s.count = blocks.length
    | some (i, k) => 0 < k ∧ OpenBlock R i k rest ∧ s.count = blocks.length + 1
  named : ∀ j b, blocks[j]? = some b → ∀ r ∈ b, R.named (R.ident r) (j + 1)
  named_rest : ∀ r ∈ rest, R.named (R.ident r) (blocks.length + 1)

variable {R}

theorem OpenBlock.snoc {i : ι} {k : Nat} {rs : List ρ} {r : ρ} (h : OpenBlock R i k rs)
    (hk : 0 < k) (kind : R.kind r = some .ongoing) (seq : R.seq r = k + 1)
    (ident : R.ident r = i) : OpenBlock R i (k + 1) (rs ++ [r]) := by
  refine ⟨?_, ?_, ?_⟩
  · rw [List.map_append, h.seqs, List.range'_concat]
    simp [seq, Nat.add_comm]
  · have hrep : k + 1 - 1 = (k - 1) + 1 := by omega
    rw [List.map_append, h.kinds, hrep, List.replicate_succ']
    simp [kind]
  · intro x hx
    rcases List.mem_append.mp hx with hx | hx
    · exact h.ident x hx
    · rw [List.mem_singleton.mp hx, ident]

theorem OpenBlock.ne_nil {i : ι} {k : Nat} {rs : List ρ} (h : OpenBlock R i k rs) : rs ≠ [] := by
  rintro rfl
  simpa using h.kinds

/-- A record of the open block is named as the block is. -/
theorem Decomposition.named_snoc {rs : List ρ} {s : St ι} {i : ι} {k : Nat} {r : ρ}
    {blocks : List (List ρ)} {rest : List ρ} (h : Decomposition R rs s blocks rest)
    (ho : OpenBlock R i k rest) (ident : R.ident r = i) :
    ∀ x ∈ rest ++ [r], R.named (R.ident x) (blocks.length + 1) := by
  obtain ⟨y, ys, rfl⟩ := List.exists_cons_of_ne_nil ho.ne_nil
  have hy := h.named_rest y List.mem_cons_self
  rw [ho.ident y List.mem_cons_self] at hy
  intro x hx
  rcases List.mem_append.mp hx with hx | hx
  · exact h.named_rest x hx
  · rw [List.mem_singleton.mp hx, ident]
    exact hy

/-- The step lemma: one record extends a decomposition. -/
theorem Decomposition.step {rs : List ρ} {s t : St ι} {r : ρ} {blocks : List (List ρ)}
    {rest : List ρ} (h : Decomposition R rs s blocks rest) (hs : Step R s r t) :
    ∃ blocks' rest', Decomposition R (rs ++ [r]) t blocks' rest' := by
  cases hs with
  | @opening n _ kind seq named =>
    obtain ⟨rfl, hn⟩ := h.live
    simp only at hn
    subst hn
    exact ⟨blocks, [r], by rw [h.eq]; simp, h.closed,
      ⟨by omega, ⟨by simp [seq], by simp [kind], by simp⟩, rfl⟩, h.named, by simpa using named⟩
  | @ongoing n k i _ kind seq ident =>
    obtain ⟨hk, ho, hn⟩ := h.live
    exact ⟨blocks, rest ++ [r], by rw [h.eq, List.append_assoc], h.closed,
      ⟨by omega, ho.snoc hk kind seq ident, hn⟩, h.named, h.named_snoc ho ident⟩
  | @closing n k i _ kind seq ident =>
    obtain ⟨hk, ho, hn⟩ := h.live
    refine ⟨blocks ++ [rest ++ [r]], [], by rw [h.eq]; simp, ?_, ⟨rfl, by simpa using hn⟩, ?_,
      by simp⟩
    · intro b hb
      rcases List.mem_append.mp hb with hb | hb
      · exact h.closed b hb
      · rw [List.mem_singleton.mp hb]
        exact ⟨i, k, rest, r, rfl, ho, kind, seq, ident⟩
    · intro j b hj
      rcases Nat.lt_trichotomy j blocks.length with hlt | rfl | hgt
      · rw [List.getElem?_append_left hlt] at hj
        exact h.named j b hj
      · rw [List.getElem?_concat_length] at hj
        cases hj
        exact h.named_snoc ho ident
      · rw [List.getElem?_eq_none (by simp; omega)] at hj
        cases hj

/-- The run lemma: a whole run from a decomposed stream stays decomposed. -/
theorem Decomposition.run {rs ts : List ρ} {s t : St ι} {blocks : List (List ρ)} {rest : List ρ}
    (h : Decomposition R rs s blocks rest) (hr : Run R s ts t) :
    ∃ blocks' rest', Decomposition R (rs ++ ts) t blocks' rest' := by
  induction hr generalizing rs blocks rest with
  | nil => exact ⟨blocks, rest, by simpa using h⟩
  | @cons s m u r ts hs _ ih =>
    obtain ⟨blocks', rest', h'⟩ := h.step hs
    obtain ⟨bs, tl, hd⟩ := ih h'
    exact ⟨bs, tl, by simpa using hd⟩

theorem Decomposition.init : Decomposition R [] ⟨0, none⟩ [] [] where
  eq := rfl
  closed := by simp
  live := ⟨rfl, rfl⟩
  named := by simp
  named_rest := by simp

/-- **Two blocks never share what their name determines.** -/
theorem Decomposition.distinct {κ : Type} (key : ρ → κ) {rs : List ρ} {s : St ι}
    {blocks : List (List ρ)} {rest : List ρ} (h : Decomposition R rs s blocks rest)
    (inj : ∀ {x y : ρ} {m n : Nat}, R.named (R.ident x) m → R.named (R.ident y) n →
      key x = key y → m = n) :
    (blocks ++ [rest]).Pairwise fun b c => ∀ x ∈ b, ∀ y ∈ c, key x ≠ key y := by
  rw [List.pairwise_append]
  refine ⟨?_, by simp, ?_⟩
  · rw [List.pairwise_iff_getElem]
    intro i j hi hj hij x hx y hy hxy
    have hi' := h.named i _ (List.getElem?_eq_getElem hi) x hx
    have hj' := h.named j _ (List.getElem?_eq_getElem hj) y hy
    have := inj hi' hj' hxy
    omega
  · intro b hb c hc x hx y hy hxy
    obtain ⟨i, hi, rfl⟩ := List.getElem_of_mem hb
    rw [List.mem_singleton.mp hc] at hy
    have := inj (h.named i _ (List.getElem?_eq_getElem hi) x hx) (h.named_rest y hy) hxy
    omega

end FlowAlarm.Trace
