/-
  Foundation/Run.lean --- runs of a system given by a partial step function.

  `step s a = some s'` is one step with label `a`; `none` means that the label
  cannot be taken in `s`.  A run may be restricted by a guard on its steps, which
  is how a property that holds only of runs that avoid some step is stated.
-/
import Mathlib.Algebra.Group.Nat.Defs

set_option autoImplicit false

namespace NekaKernel.Foundation

section Runs

variable {σ α : Type}

/-- The state after taking the labels in order. -/
def exec (step : σ → α → Option σ) : σ → List α → Option σ
  | s, [] => some s
  | s, a :: rest => (step s a).bind fun s' => exec step s' rest

theorem exec_append (step : σ → α → Option σ) (l₁ l₂ : List α) :
    ∀ s, exec step s (l₁ ++ l₂) = (exec step s l₁).bind fun s' => exec step s' l₂ := by
  induction l₁ with
  | nil =>
    intro s
    rfl
  | cons a l₁ ih =>
    intro s
    rw [List.cons_append, exec, exec, Option.bind_assoc]
    exact congrArg _ (funext ih)

/-- The states reached from `init` by steps that meet `ok`. -/
inductive Reach (init : σ → Prop) (step : σ → α → Option σ) (ok : σ → α → Prop) : σ → Prop
  /-- An initial state. -/
  | start {s : σ} (h : init s) : Reach init step ok s
  /-- One more step. -/
  | step {s s' : σ} {a : α} (r : Reach init step ok s) (hok : ok s a)
      (hs : step s a = some s') : Reach init step ok s'

variable {init : σ → Prop} {step : σ → α → Option σ} {ok : σ → α → Prop}

/-- **The invariant rule.**  What holds initially and is kept by every allowed
step holds in every state reached. -/
theorem Reach.invariant {P : σ → Prop} (hinit : ∀ s, init s → P s)
    (hstep : ∀ s a s', P s → ok s a → step s a = some s' → P s') {s : σ}
    (r : Reach init step ok s) : P s := by
  induction r with
  | start h => exact hinit _ h
  | step _ hok hs ih => exact hstep _ _ _ ih hok hs

/-- The state after the labels, if every step on the way is allowed. -/
def execWhile (step : σ → α → Option σ) (allowed : σ → α → Bool) : σ → List α → Option σ
  | s, [] => some s
  | s, a :: rest =>
      if allowed s a then (step s a).bind fun s' => execWhile step allowed s' rest else none

/-- Executing allowed labels from a reached state reaches the final one. -/
theorem Reach.execWhile {allowed : σ → α → Bool} (hok : ∀ s a, allowed s a = true → ok s a)
    {labels : List α} :
    ∀ {s s' : σ}, Reach init step ok s → Foundation.execWhile step allowed s labels = some s' →
      Reach init step ok s' := by
  induction labels with
  | nil =>
    intro s s' r h
    simp only [Foundation.execWhile, Option.some.injEq] at h
    exact h ▸ r
  | cons a rest ih =>
    intro s s' r h
    simp only [Foundation.execWhile] at h
    split at h
    · rename_i hallowed
      obtain ⟨mid, hmid, hrest⟩ := Option.bind_eq_some_iff.mp h
      exact ih (.step r (hok s a hallowed) hmid) hrest
    · simp at h

/-- Executing labels, each allowed where it is taken, reaches the final state. -/
theorem Reach.exec {labels : List α} :
    ∀ {s s' : σ}, Reach init step ok s →
      (∀ k m a, labels[k]? = some a →
        Foundation.exec step s (labels.take k) = some m → ok m a) →
      Foundation.exec step s labels = some s' → Reach init step ok s' := by
  induction labels with
  | nil =>
    intro s s' r _ h
    simp only [Foundation.exec, Option.some.injEq] at h
    exact h ▸ r
  | cons a rest ih =>
    intro s s' r hok h
    obtain ⟨mid, hmid, hrest⟩ := Option.bind_eq_some_iff.mp h
    have hhead : ok s a := hok 0 s a rfl rfl
    refine ih (.step r hhead hmid) (fun k m b hb hm => ?_) hrest
    refine hok (k + 1) m b (by rwa [List.getElem?_cons_succ]) ?_
    rw [List.take_succ_cons, Foundation.exec, hmid]
    exact hm

/-- Every label is allowed where it is taken. -/
def Guarded (step : σ → α → Option σ) (ok : σ → α → Prop) : σ → List α → Prop
  | _, [] => True
  | s, a :: rest => ok s a ∧ ∀ s', step s a = some s' → Guarded step ok s' rest

/-- Executing guarded labels from a reached state reaches the final one. -/
theorem Reach.guarded {labels : List α} :
    ∀ {s s' : σ}, Reach init step ok s → Guarded step ok s labels →
      Foundation.exec step s labels = some s' → Reach init step ok s' := by
  induction labels with
  | nil =>
    intro s s' r _ h
    obtain rfl := Option.some.inj h
    exact r
  | cons a rest ih =>
    intro s s' r hguard h
    obtain ⟨mid, hmid, hrest⟩ := Option.bind_eq_some_iff.mp h
    exact ih (.step r hguard.1 hmid) (hguard.2 mid hmid) hrest

theorem exec_of_execWhile {allowed : σ → α → Bool} {labels : List α} :
    ∀ {s s' : σ}, Foundation.execWhile step allowed s labels = some s' →
      Foundation.exec step s labels = some s' := by
  induction labels with
  | nil => exact fun h => h
  | cons a rest ih =>
    intro s s' h
    simp only [Foundation.execWhile] at h
    split at h
    · obtain ⟨mid, hmid, hrest⟩ := Option.bind_eq_some_iff.mp h
      rw [Foundation.exec, hmid]
      exact ih hrest
    · simp at h

theorem guarded_of_execWhile {allowed : σ → α → Bool} (hok : ∀ s a, allowed s a = true → ok s a)
    {labels : List α} :
    ∀ {s s' : σ}, Foundation.execWhile step allowed s labels = some s' →
      Guarded step ok s labels := by
  induction labels with
  | nil =>
    intro s s' _
    exact trivial
  | cons a rest ih =>
    intro s s' h
    simp only [Foundation.execWhile] at h
    split at h
    · rename_i hallowed
      obtain ⟨mid, hmid, hrest⟩ := Option.bind_eq_some_iff.mp h
      refine ⟨hok s a hallowed, fun s₁ hs₁ => ?_⟩
      rw [hmid] at hs₁
      cases hs₁
      exact ih hrest
    · simp at h

/-- A label that changes nothing may be taken again and again. -/
theorem exec_replicate {s : σ} {a : α} (h : step s a = some s) (n : Nat) :
    Foundation.exec step s (List.replicate n a) = some s := by
  induction n with
  | zero => rfl
  | succ n ih =>
    rw [List.replicate_succ, Foundation.exec, h]
    exact ih

theorem guarded_replicate {s : σ} {a : α} (h : step s a = some s) (hok : ok s a) (n : Nat) :
    Guarded step ok s (List.replicate n a) := by
  induction n with
  | zero => exact trivial
  | succ n ih =>
    refine ⟨hok, fun s' hs' => ?_⟩
    rw [h] at hs'
    cases hs'
    exact ih

theorem exec_invariant {P : σ → Prop} (hstep : ∀ s a s', P s → step s a = some s' → P s')
    {labels : List α} : ∀ {s s' : σ}, P s → Foundation.exec step s labels = some s' → P s' := by
  induction labels with
  | nil =>
    intro s s' hP h
    obtain rfl := Option.some.inj h
    exact hP
  | cons a rest ih =>
    intro s s' hP h
    obtain ⟨mid, hmid, hrest⟩ := Option.bind_eq_some_iff.mp h
    exact ih (hstep s a mid hP hmid) hrest

/-- **The rule of potential.**  Every step that counts takes one from the potential,
every step that delays adds at most `n` to it; so before the goal is reached, which
stays reached, no more steps count than the potential and the delays allow. -/
theorem Guarded.potential {P D : σ → Prop} {Φ : σ → Nat} {counts delays : α → Bool} {n : Nat}
    (hstep : ∀ s a s', P s → ok s a → step s a = some s' → D s' ∨
      P s' ∧ Φ s' + (if counts a then 1 else 0) ≤ Φ s + n * (if delays a then 1 else 0))
    (hdone : ∀ s a s', D s → step s a = some s' → D s') {labels : List α} :
    ∀ {s s' : σ}, P s → Guarded step ok s labels → Foundation.exec step s labels = some s' →
      D s' ∨ P s' ∧ Φ s' + labels.countP counts ≤ Φ s + n * labels.countP delays := by
  induction labels with
  | nil =>
    intro s s' hP _ h
    obtain rfl := Option.some.inj h
    exact .inr ⟨hP, Nat.le_refl _⟩
  | cons a rest ih =>
    intro s s' hP hguard h
    obtain ⟨mid, hmid, hrest⟩ := Option.bind_eq_some_iff.mp h
    rcases hstep s a mid hP hguard.1 hmid with hD | ⟨hP', hfirst⟩
    · exact .inl (exec_invariant hdone hD hrest)
    · refine (ih hP' (hguard.2 mid hmid) hrest).imp_right fun ⟨hlast, hle⟩ => ⟨hlast, ?_⟩
      rw [List.countP_cons, List.countP_cons, Nat.mul_add]
      omega

end Runs

/-! ## Runs that respond, in lockstep -/

section Lockstep

variable {σ τ α β : Type}

/-- The state after the labels, and what each step responded. -/
def execOut (step : σ → α → Option (σ × β)) : σ → List α → Option (σ × List β)
  | s, [] => some (s, [])
  | s, a :: rest =>
      (step s a).bind fun (s', b) => (execOut step s' rest).map fun (last, out) =>
        (last, b :: out)

variable {step : σ → α → Option (σ × β)} {step' : τ → α → Option (τ × β)} {R : σ → τ → Prop}

/-- **The simulation rule.**  Systems that take every label together, with the same
response and into related states, run together. -/
theorem execOut_lockstep
    (hstep : ∀ s t a, R s t → ∃ s' t' b, step s a = some (s', b) ∧
      step' t a = some (t', b) ∧ R s' t')
    (labels : List α) :
    ∀ {s : σ} {t : τ}, R s t → ∃ s' t' out, execOut step s labels = some (s', out) ∧
      execOut step' t labels = some (t', out) ∧ R s' t' := by
  induction labels with
  | nil =>
    intro s t hR
    exact ⟨s, t, [], rfl, rfl, hR⟩
  | cons a rest ih =>
    intro s t hR
    obtain ⟨s₁, t₁, b, hs, ht, hR₁⟩ := hstep s t a hR
    obtain ⟨s', t', out, hs', ht', hR'⟩ := ih hR₁
    refine ⟨s', t', b :: out, ?_, ?_, hR'⟩
    · rw [execOut, hs]
      simp [hs']
    · rw [execOut, ht]
      simp [ht']

end Lockstep

/-! ## Programs over a state that may stop -/

section Programs

variable {σ α β : Type} {I : σ → Prop}

/-- Where the program returns, it has kept the invariant. -/
def Preserves (I : σ → Prop) (x : StateT σ Option α) : Prop :=
  ∀ s a s', I s → x s = some (a, s') → I s'

theorem preserves_pure (a : α) : Preserves I (pure a : StateT σ Option α) := by
  intro s b s' hI h
  obtain ⟨-, rfl⟩ := Prod.mk.inj (Option.some.inj h)
  exact hI

theorem preserves_set {s : σ} (h : I s) : Preserves I (set s : StateT σ Option PUnit) := by
  intro _ _ s' _ hs
  obtain ⟨-, rfl⟩ := Prod.mk.inj (Option.some.inj hs)
  exact h

/-- **The rule of sequence.** -/
theorem Preserves.bind {x : StateT σ Option α} {f : α → StateT σ Option β} (hx : Preserves I x)
    (hf : ∀ a, Preserves I (f a)) : Preserves I (x >>= f) := by
  intro s b s' hI h
  obtain ⟨⟨a, mid⟩, hfirst, hrest⟩ := Option.bind_eq_some_iff.mp h
  exact hf a mid b s' (hx s a mid hI hfirst) hrest

/-- A program that begins by looking at the state. -/
theorem Preserves.get_bind {f : σ → StateT σ Option β} (hf : ∀ s, I s → Preserves I (f s)) :
    Preserves I (get >>= f) := fun s b s' hI h => hf s hI s b s' hI h

end Programs

end NekaKernel.Foundation
