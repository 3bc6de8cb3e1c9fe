import Mathlib.Algebra.GroupWithZero.Nat
import FlowAlarm.Trace.Lifecycle

/-!
# Accounts over lifecycles

A trace interleaves inputs with records. Every input of a lifecycle brings a
charge, which may depend on the input before it; every record pays an amount.
`Step` is the automaton that keeps both sums and closes a lifecycle only when
they agree, unless the charges reached `limit`:

  trace:     i  o  i  i  u  i  c        (i input; o opens, u continues, c closes)
  charged:   3     +1 +2    +1    = 7
  paid:         3        3     1  = 7

An input comes with the context it is read in; a lifecycle keeps one context.
-/

namespace FlowAlarm.Trace.Ledger

open FlowAlarm.Trace

inductive Entry (κ ω ρ : Type) where
  | input (context : κ) (o : ω)
  | record (r : ρ)
  deriving DecidableEq

/-- What an input costs after the input before it, and what a record pays. -/
structure Tariff (κ ω ρ : Type) where
  kind : ρ → Option Kind
  amount : ρ → Nat
  charge : κ → Option ω → ω → Nat
  limit : Nat

/-- The latest entry while no lifecycle is open, or the open lifecycle with its latest input and
its two sums. -/
inductive State (κ ω : Type) where
  | idle (last : Option (κ × ω))
  | live (context : κ) (last : ω) (charged paid : Nat)

variable {κ ω ρ : Type} (T : Tariff κ ω ρ)

inductive Step : State κ ω → Entry κ ω ρ → State κ ω → Prop where
  | skipped {last : Option (κ × ω)} {k : κ} {o : ω} :
      Step (.idle last) (.input k o) (.idle (some (k, o)))
  | charged {k : κ} {l o : ω} {owed paid : Nat} :
      Step (.live k l owed paid) (.input k o) (.live k o (owed + T.charge k (some l) o) paid)
  | opening {k : κ} {o : ω} {r : ρ} (kind : T.kind r = some .opening) :
      Step (.idle (some (k, o))) (.record r) (.live k o (T.charge k none o) (T.amount r))
  | ongoing {k : κ} {l : ω} {owed paid : Nat} {r : ρ} (kind : T.kind r = some .ongoing) :
      Step (.live k l owed paid) (.record r) (.live k l owed (paid + T.amount r))
  | closing {k : κ} {l : ω} {owed paid : Nat} {r : ρ} (kind : T.kind r = some .closing)
      (settled : owed < T.limit → paid + T.amount r = owed) :
      Step (.live k l owed paid) (.record r) (.idle none)

inductive Run : State κ ω → List (Entry κ ω ρ) → State κ ω → Prop where
  | nil (s : State κ ω) : Run s [] s
  | cons {s t u : State κ ω} {x : Entry κ ω ρ} {xs : List (Entry κ ω ρ)} :
      Step T s x t → Run t xs u → Run s (x :: xs) u

variable {T}

theorem Run.one {s t : State κ ω} {x : Entry κ ω ρ} (h : Step T s x t) : Run T s [x] t :=
  .cons h (.nil t)

theorem Run.append {s t u : State κ ω} {xs ys : List (Entry κ ω ρ)} (h : Run T s xs t)
    (h' : Run T t ys u) : Run T s (xs ++ ys) u := by
  induction h with
  | nil => exact h'
  | cons hs _ ih => exact .cons hs (ih h')

theorem Run.split {s u : State κ ω} {xs ys : List (Entry κ ω ρ)} (h : Run T s (xs ++ ys) u) :
    ∃ t, Run T s xs t ∧ Run T t ys u := by
  induction xs generalizing s with
  | nil => exact ⟨s, .nil s, h⟩
  | cons x xs ih =>
    cases h with
    | cons hs hr =>
      obtain ⟨t, h1, h2⟩ := ih hr
      exact ⟨t, .cons hs h1, h2⟩

/-! ## What a closed lifecycle paid -/

/-- The inputs of a trace with their contexts. -/
def inputs (xs : List (Entry κ ω ρ)) : List (κ × ω) :=
  xs.filterMap fun
    | .input k o => some (k, o)
    | .record _ => none

/-- The records of a trace. -/
def outputs (xs : List (Entry κ ω ρ)) : List ρ :=
  xs.filterMap fun
    | .input _ _ => none
    | .record r => some r

theorem outputs_append (xs ys : List (Entry κ ω ρ)) :
    outputs (xs ++ ys) = outputs xs ++ outputs ys :=
  List.filterMap_append

@[simp] theorem outputs_records (rs : List ρ) :
    outputs (rs.map (Entry.record : ρ → Entry κ ω ρ)) = rs := by
  unfold outputs
  rw [List.filterMap_map]
  exact List.filterMap_some

/-- What the records of a trace pay. -/
def paid (T : Tariff κ ω ρ) (xs : List (Entry κ ω ρ)) : Nat :=
  (xs.map fun
    | .input _ _ => 0
    | .record r => T.amount r).sum

/-- The charges of consecutive inputs behind `last`. -/
def charges (T : Tariff κ ω ρ) (k : κ) (last : Option ω) : List ω → Nat
  | [] => 0
  | o :: os => T.charge k last o + charges T k (some o) os

/-- Every record of the trace continues its lifecycle. -/
def Continuing (T : Tariff κ ω ρ) (xs : List (Entry κ ω ρ)) : Prop :=
  ∀ r, .record r ∈ xs → T.kind r = some .ongoing

/-- A continuing stretch keeps the context and adds to both sums. -/
theorem Run.live {k : κ} {l : ω} {owed had : Nat} {xs : List (Entry κ ω ρ)} {u : State κ ω}
    (h : Run T (.live k l owed had) xs u) (hc : Continuing T xs) :
    (∀ x ∈ inputs xs, x.1 = k) ∧
      ∃ l', u = .live k l' (owed + charges T k (some l) ((inputs xs).map Prod.snd))
        (had + paid T xs) := by
  generalize hs : State.live k l owed had = s at h
  induction h generalizing l owed had with
  | nil => subst hs; exact ⟨by simp [inputs], l, by simp [inputs, charges, paid]⟩
  | @cons _ t u x xs hstep _ ih =>
    subst hs
    have htail : Continuing T xs := fun r hr => hc r (List.mem_cons_of_mem _ hr)
    cases hstep with
    | @charged _ _ o =>
      obtain ⟨hk, l', hu⟩ := ih htail rfl
      refine ⟨?_, l', ?_⟩
      · intro x hx
        rcases List.mem_cons.mp hx with rfl | hx
        · rfl
        · exact hk x hx
      · rw [hu]
        simp only [inputs, List.filterMap_cons, List.map_cons, charges, paid, List.sum_cons,
          Nat.add_assoc, Nat.zero_add]
    | @ongoing _ _ _ _ r kind =>
      obtain ⟨hk, l', hu⟩ := ih htail rfl
      refine ⟨hk, l', ?_⟩
      rw [hu]
      simp only [inputs, List.filterMap_cons, paid, List.map_cons, List.sum_cons, Nat.add_assoc]
    | @closing _ _ _ _ r kind _ =>
      exact absurd (hc r List.mem_cons_self) (by simp [kind])

/-- While idle, the state names the entry before it. -/
theorem Run.idle_last {xs : List (Entry κ ω ρ)} {k : κ} {o : ω} {s : State κ ω}
    (hs : ∀ p, s ≠ .idle (some p)) (h : Run T s xs (.idle (some (k, o)))) :
    ∃ xs', xs = xs' ++ [.input k o] := by
  rcases List.eq_nil_or_concat xs with rfl | ⟨init, x, rfl⟩
  · cases h
    exact absurd rfl (hs (k, o))
  · rw [List.concat_eq_append] at h ⊢
    obtain ⟨t, -, hx⟩ := h.split
    cases hx with
    | cons hstep hnil =>
      cases hnil
      cases hstep with
      | skipped => exact ⟨init, rfl⟩

/-- **A closed lifecycle paid its charges**: it starts right behind the input that opens it, keeps
that input's context, and its records pay what its inputs cost. -/
theorem Run.settled {pre mid suf : List (Entry κ ω ρ)} {start fin : ρ} {u : State κ ω}
    (h : Run T (.idle none) (pre ++ .record start :: mid ++ .record fin :: suf) u)
    (hstart : T.kind start = some .opening) (hfin : T.kind fin = some .closing)
    (hmid : Continuing T mid) :
    ∃ pre' k o, pre = pre' ++ [.input k o] ∧ (∀ x ∈ inputs mid, x.1 = k) ∧
      (charges T k none (o :: (inputs mid).map Prod.snd) < T.limit →
        T.amount start + paid T mid + T.amount fin =
          charges T k none (o :: (inputs mid).map Prod.snd)) := by
  obtain ⟨s, hlife, hrest⟩ := h.split
  obtain ⟨t, hpre, hopen⟩ := hlife.split
  cases hopen with
  | cons hstep hlive =>
    cases hstep with
    | @opening k o _ kind =>
      obtain ⟨pre', rfl⟩ := hpre.idle_last (by simp)
      obtain ⟨hk, l', rfl⟩ := hlive.live hmid
      refine ⟨pre', k, o, rfl, hk, fun hlimit => ?_⟩
      cases hrest with
      | cons hclose _ =>
        cases hclose with
        | closing _ settled => exact settled hlimit
        | ongoing kind => rw [hfin] at kind; cases kind
    | ongoing kind => rw [hstart] at kind; cases kind
    | closing kind => rw [hstart] at kind; cases kind

end FlowAlarm.Trace.Ledger
