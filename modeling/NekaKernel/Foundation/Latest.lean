/-
  Foundation/Latest.lean --- the last element of a kind in a sequence.

  `Latest P l a` says that `a` is the last element of `l` in `P`.  A flag that
  some events set, some clear and the others leave alone shows the latest event
  among those that set or clear it.
-/
import Mathlib.Data.List.Induction

set_option autoImplicit false

namespace NekaKernel.Foundation

variable {α : Type} {P Q : α → Prop} {l : List α} {a b : α}

/-- `a` is in `P`, and no element of `P` comes after it. -/
def Latest (P : α → Prop) (l : List α) (a : α) : Prop :=
  P a ∧ ∃ before after, l = before ++ a :: after ∧ ∀ b ∈ after, ¬ P b

namespace Latest

theorem not_nil : ¬ Latest P [] a := by
  rintro ⟨-, before, after, h, -⟩
  exact absurd h (by simp)

theorem mem (h : Latest P l a) : a ∈ l := by
  obtain ⟨-, before, after, rfl, -⟩ := h
  exact List.mem_append_right _ List.mem_cons_self

/-- Where an element stands in a sequence with `b` at the end. -/
theorem concat_split {before after : List α} (h : l ++ [b] = before ++ a :: after) :
    (b = a ∧ after = []) ∨ ∃ init, after = init ++ [b] ∧ l = before ++ a :: init := by
  rcases List.eq_nil_or_concat after with rfl | ⟨init, last, rfl⟩
  · have hba : [b] = [a] := (List.append_inj' h rfl).2
    exact .inl ⟨List.singleton_inj.mp hba, rfl⟩
  · rw [List.concat_eq_append] at h ⊢
    rw [← List.cons_append, ← List.append_assoc] at h
    obtain ⟨hl, hb⟩ := List.append_inj' h rfl
    exact .inr ⟨init, by rw [hb], hl⟩

/-- An element of `P` at the end is the latest one. -/
theorem concat_of (hb : P b) : Latest P (l ++ [b]) a ↔ a = b := by
  constructor
  · rintro ⟨-, before, after, hl, hafter⟩
    rcases concat_split hl with ⟨rfl, -⟩ | ⟨init, rfl, -⟩
    · rfl
    · exact absurd hb (hafter b (by simp))
  · rintro rfl
    exact ⟨hb, l, [], rfl, by simp⟩

/-- Any other element at the end changes nothing. -/
theorem concat_of_not (hb : ¬ P b) : Latest P (l ++ [b]) a ↔ Latest P l a := by
  constructor
  · rintro ⟨ha, before, after, hl, hafter⟩
    rcases concat_split hl with ⟨rfl, -⟩ | ⟨init, rfl, hinit⟩
    · exact absurd ha hb
    · exact ⟨ha, before, init, hinit, fun c hc => hafter c (by simp [hc])⟩
  · rintro ⟨ha, before, after, rfl, hafter⟩
    refine ⟨ha, before, after ++ [b], by simp, fun c hc => ?_⟩
    rcases List.mem_append.mp hc with hc | hc
    · exact hafter c hc
    · rw [List.mem_singleton.mp hc]
      exact hb

/-- There is one latest element. -/
theorem unique (ha : Latest P l a) (hb : Latest P l b) : a = b := by
  induction l using List.reverseRecOn with
  | nil => exact absurd ha not_nil
  | append_singleton l c ih =>
    by_cases hc : P c
    · exact ((concat_of hc).mp ha).trans ((concat_of hc).mp hb).symm
    · exact ih ((concat_of_not hc).mp ha) ((concat_of_not hc).mp hb)

/-- Of a smaller kind the same element is the latest one, if it is of that kind. -/
theorem mono (ha : Latest Q l a) (hPQ : ∀ c, P c → Q c) (hPa : P a) : Latest P l a := by
  obtain ⟨-, before, after, hl, hafter⟩ := ha
  exact ⟨hPa, before, after, hl, fun c hc hPc => hafter c hc (hPQ c hPc)⟩

/-- A latest element of a kind has, in any larger kind, a latest element. -/
theorem exists_of_imp (ha : Latest P l a) (hPQ : ∀ c, P c → Q c) : ∃ c, Latest Q l c := by
  induction l using List.reverseRecOn with
  | nil => exact absurd ha not_nil
  | append_singleton l c ih =>
    by_cases hc : Q c
    · exact ⟨c, (concat_of hc).mpr rfl⟩
    · obtain ⟨d, hd⟩ := ih ((concat_of_not (fun h => hc (hPQ c h))).mp ha)
      exact ⟨d, (concat_of_not hc).mpr hd⟩

/-- The latest element among those of a larger kind is the latest one of all. -/
theorem of_filter {p : α → Bool} (hp : ∀ a, P a → p a = true)
    (h : Latest P (l.filter p) a) : Latest P l a := by
  induction l using List.reverseRecOn with
  | nil => exact h
  | append_singleton l c ih =>
    rw [List.filter_append] at h
    by_cases hc : P c
    · rw [List.filter_cons_of_pos (hp c hc), List.filter_nil] at h
      exact (concat_of hc).mpr ((concat_of hc).mp h)
    · refine (concat_of_not hc).mpr (ih ?_)
      by_cases hpc : p c = true
      · rw [List.filter_cons_of_pos hpc, List.filter_nil] at h
        exact (concat_of_not hc).mp h
      · rw [List.filter_cons_of_neg hpc, List.filter_nil, List.append_nil] at h
        exact h

/-- The only element of a kind is the latest one. -/
theorem of_unique (hmem : a ∈ l) (ha : P a) (honly : ∀ b ∈ l, P b → b = a) : Latest P l a := by
  induction l using List.reverseRecOn with
  | nil => exact absurd hmem List.not_mem_nil
  | append_singleton l c ih =>
    by_cases hc : P c
    · exact (concat_of hc).mpr (honly c (by simp) hc).symm
    · have hin : a ∈ l := by
        rcases List.mem_append.mp hmem with hin | hlast
        · exact hin
        · exact absurd (List.mem_singleton.mp hlast ▸ ha) hc
      exact (concat_of_not hc).mpr (ih hin fun b hb => honly b (List.mem_append_left _ hb))

end Latest

end NekaKernel.Foundation
