/-
  Foundation/Leads.lean --- runs of a machine that has one next step.

  `Leads step Q s` says that the machine gets from `s` to a state in `Q`, and that no
  step on the way is stuck.  It is a total notion: a machine that loops for ever leads
  nowhere, so a loop needs a rule with a bound on its rounds.
-/
import Mathlib.Algebra.Group.Nat.Defs

set_option autoImplicit false

namespace NekaKernel.Foundation

/-- The machine comes from `s` to a state in `Q`. -/
inductive Leads {σ : Type} (step : σ → Option σ) (Q : σ → Prop) : σ → Prop
  /-- It is there. -/
  | done {s : σ} (h : Q s) : Leads step Q s
  /-- One more step. -/
  | step {s s' : σ} (h : step s = some s') (rest : Leads step Q s') : Leads step Q s

namespace Leads

variable {σ : Type} {step : σ → Option σ} {Q R : σ → Prop} {s : σ}

/-- **The rule of sequence.** -/
theorem trans (h : Leads step Q s) (hrest : ∀ s', Q s' → Leads step R s') : Leads step R s := by
  induction h with
  | done hQ => exact hrest _ hQ
  | step hs _ ih => exact .step hs ih

/-- **The loop rule.**  `I i` holds before round `i`, and each of the `n` rounds comes to
its end. -/
theorem loop {I : Nat → σ → Prop} {n : Nat}
    (hround : ∀ i, i < n → ∀ s, I i s → Leads step (I (i + 1)) s) (h : I 0 s) :
    Leads step (I n) s := by
  have hrounds : ∀ k, k ≤ n → Leads step (I k) s := by
    intro k
    induction k with
    | zero =>
      intro _
      exact .done h
    | succ k ih =>
      intro hk
      exact (ih (Nat.le_of_succ_le hk)).trans (hround k hk)
  exact hrounds n (Nat.le_refl n)

end Leads

end NekaKernel.Foundation
