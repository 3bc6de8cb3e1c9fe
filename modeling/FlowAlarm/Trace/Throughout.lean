import Mathlib.Logic.Basic

/-!
# Properties of the steps of a run

A run takes one input after the other. `Throughout step P s inputs` says that
`P` holds of every input and the state it meets. Two such properties that are
equivalent in every state of an invariant are equivalent over the run
(`throughout_congr`), so a statement about whole runs is proved for one step.
-/

namespace FlowAlarm.Trace

variable {σ ι : Type} {step : σ → ι → σ}

/-- `P` holds of every input of the run and the state it meets. -/
def Throughout (step : σ → ι → σ) (P : σ → ι → Prop) : σ → List ι → Prop
  | _, [] => True
  | s, i :: inputs => P s i ∧ Throughout step P (step s i) inputs

instance decidableThroughout (P : σ → ι → Prop) [∀ s i, Decidable (P s i)] :
    ∀ s inputs, Decidable (Throughout step P s inputs)
  | _, [] => inferInstanceAs (Decidable True)
  | s, i :: inputs =>
    have := decidableThroughout P (step s i) inputs
    inferInstanceAs (Decidable (_ ∧ _))

/-- What holds of every step of an invariant holds throughout. -/
theorem throughout_of_inv {Inv : σ → Prop} {P : σ → ι → Prop}
    (hstep : ∀ s i, Inv s → Inv (step s i)) (h : ∀ s i, Inv s → P s i) {s : σ} (hs : Inv s)
    (inputs : List ι) : Throughout step P s inputs := by
  induction inputs generalizing s with
  | nil => trivial
  | cons i inputs ih => exact ⟨h s i hs, ih (hstep s i hs)⟩

/-- What is equivalent in every step of a run is equivalent over the run; `N` is what the run takes
for granted of its inputs. -/
theorem throughout_congr {Inv : σ → Prop} {N P Q : σ → ι → Prop}
    (hstep : ∀ s i, Inv s → N s i → Inv (step s i))
    (h : ∀ s i, Inv s → N s i → (P s i ↔ Q s i)) {s : σ} (hs : Inv s) {inputs : List ι}
    (hn : Throughout step N s inputs) :
    Throughout step P s inputs ↔ Throughout step Q s inputs := by
  induction inputs generalizing s with
  | nil => exact Iff.rfl
  | cons i inputs ih => exact and_congr (h s i hs hn.1) (ih (hstep s i hs hn.1) hn.2)

end FlowAlarm.Trace
