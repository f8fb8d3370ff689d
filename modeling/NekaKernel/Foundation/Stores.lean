/-
  Foundation/Stores.lean --- what a sequence of stores leaves in the cells.

  `stored m ws` is the contents `m` after the stores `ws`, the first one first.  A
  cell holds the value of the latest store to it, or what it held before.
-/
import Mathlib.Logic.Function.Basic
import NekaKernel.Foundation.Latest

set_option autoImplicit false

namespace NekaKernel.Foundation

variable {κ α β : Type} [DecidableEq κ] {m : κ → α} {ws : List (κ × α)} {w : κ × α} {i : κ}

/-- The contents after the stores. -/
def stored (m : κ → α) (ws : List (κ × α)) : κ → α :=
  ws.foldl (fun m w => Function.update m w.1 w.2) m

theorem stored_cons (m : κ → α) (w : κ × α) (ws : List (κ × α)) :
    stored m (w :: ws) = stored (Function.update m w.1 w.2) ws := rfl

theorem stored_append (m : κ → α) (ws ws' : List (κ × α)) :
    stored m (ws ++ ws') = stored (stored m ws) ws' :=
  List.foldl_append

theorem stored_concat (m : κ → α) (ws : List (κ × α)) (w : κ × α) :
    stored m (ws ++ [w]) = Function.update (stored m ws) w.1 w.2 := stored_append m ws [w]

/-- A cell depends on its own contents before. -/
theorem stored_congr {n : κ → α} (h : m i = n i) : stored m ws i = stored n ws i := by
  induction ws using List.reverseRecOn with
  | nil => exact h
  | append_singleton ws w ih =>
    rw [stored_concat, stored_concat]
    by_cases hi : i = w.1
    · rw [hi, Function.update_self, Function.update_self]
    · rw [Function.update_of_ne hi, Function.update_of_ne hi, ih]

/-- A cell that nothing is stored to. -/
theorem stored_of_ne (h : ∀ w ∈ ws, w.1 ≠ i) : stored m ws i = m i := by
  induction ws using List.reverseRecOn with
  | nil => rfl
  | append_singleton ws w ih =>
    have hw : w.1 ≠ i := h w (by simp)
    rw [stored_concat, Function.update_of_ne hw.symm]
    exact ih fun v hv => h v (List.mem_append_left _ hv)

/-- A cell holds what was stored last. -/
theorem stored_of_latest (h : Latest (fun w => w.1 = i) ws w) : stored m ws i = w.2 := by
  obtain ⟨hw, before, after, rfl, hafter⟩ := h
  rw [stored_append, stored_cons, stored_of_ne hafter, ← hw, Function.update_self]

/-- A cell was stored to, or it was not. -/
theorem latest_or_ne (ws : List (κ × α)) (i : κ) :
    (∃ w, Latest (fun w => w.1 = i) ws w) ∨ ∀ w ∈ ws, w.1 ≠ i := by
  induction ws using List.reverseRecOn with
  | nil => exact Or.inr nofun
  | append_singleton ws w ih =>
    by_cases hw : w.1 = i
    · exact Or.inl ⟨w, (Latest.concat_of (P := fun w : κ × α => w.1 = i) hw).mpr rfl⟩
    · rcases ih with ⟨v, hv⟩ | hne
      · exact Or.inl ⟨v, (Latest.concat_of_not (P := fun w : κ × α => w.1 = i) hw).mpr hv⟩
      · refine Or.inr fun v hv => ?_
        rcases List.mem_append.mp hv with hv | hv
        · exact hne v hv
        · rw [List.mem_singleton.mp hv]
          exact hw

/-- Stores of encoded values leave encoded contents. -/
theorem stored_map (f : α → β) (m : κ → α) (ws : List (κ × α)) (i : κ) :
    stored (fun i => f (m i)) (ws.map fun w => (w.1, f w.2)) i = f (stored m ws i) := by
  induction ws using List.reverseRecOn with
  | nil => rfl
  | append_singleton ws w ih =>
    rw [List.map_append, List.map_singleton, stored_concat, stored_concat]
    by_cases hi : i = w.1
    · rw [hi, Function.update_self, Function.update_self]
    · rw [Function.update_of_ne hi, Function.update_of_ne hi, ih]

/-- **When all cells end in `P`.**  Every store of something else is stored over. -/
theorem stored_forall_iff {P : α → Prop} (hm : ∀ i, P (m i)) :
    (∀ i, P (stored m ws i)) ↔
      ∀ before w after, ws = before ++ w :: after → ¬ P w.2 → ∃ v ∈ after, v.1 = w.1 := by
  constructor
  · intro h before w after hws hw
    by_contra hnone
    refine hw ?_
    have hlatest : Latest (fun v => v.1 = w.1) ws w :=
      ⟨rfl, before, after, hws, fun v hv heq => hnone ⟨v, hv, heq⟩⟩
    rw [← stored_of_latest (m := m) hlatest]
    exact h w.1
  · intro h i
    rcases latest_or_ne ws i with ⟨w, hlatest⟩ | hne
    · rw [stored_of_latest hlatest]
      obtain ⟨hw, before, after, hws, hafter⟩ := hlatest
      by_contra hbad
      obtain ⟨v, hv, hcell⟩ := h before w after hws hbad
      exact hafter v hv (hcell.trans hw)
    · rw [stored_of_ne hne]
      exact hm i

end NekaKernel.Foundation
