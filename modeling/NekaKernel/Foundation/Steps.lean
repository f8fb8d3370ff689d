/-
  Foundation/Steps.lean --- arithmetic progressions below a bound.

  `steps d a e` lists `a, a + d, a + 2 * d, ...` as long as they are below `e`.  A
  scan that moves a cursor by `d`, and jumps over stretches in which nothing is
  wanted, visits what a filter leaves of such a list.
-/
import Mathlib.Algebra.Group.Nat.Defs
import Mathlib.Data.List.Range

set_option autoImplicit false

namespace NekaKernel.Foundation

/-- `a, a + d, a + 2 * d, ...` below `e`. -/
def steps (d a e : Nat) : List Nat := List.range' a ((e - a + (d - 1)) / d) d

variable {d a b e x : Nat}

theorem steps_of_ge (hd : 0 < d) (h : e ≤ a) : steps d a e = [] := by
  unfold steps
  rw [Nat.sub_eq_zero_of_le h, Nat.zero_add, Nat.div_eq_of_lt (Nat.sub_lt hd Nat.one_pos)]
  rfl

theorem steps_of_lt (hd : 0 < d) (h : a < e) : steps d a e = a :: steps d (a + d) e := by
  have hcount : (e - a + (d - 1)) / d = (e - (a + d) + (d - 1)) / d + 1 := by
    rcases Nat.le_total e (a + d) with hle | hle
    · rw [Nat.sub_eq_zero_of_le hle, Nat.zero_add, Nat.div_eq_of_lt (Nat.sub_lt hd Nat.one_pos),
        Nat.div_eq_of_lt_le]
      · omega
      · omega
    · rw [← Nat.add_div_right _ hd]
      congr 1
      omega
  unfold steps
  rw [hcount, List.range'_succ]

/-- The numbers congruent to `a` from `a` on, below `e`. -/
theorem mem_steps (hd : 0 < d) : x ∈ steps d a e ↔ a ≤ x ∧ x < e ∧ x % d = a % d := by
  unfold steps
  rw [List.mem_range']
  constructor
  · rintro ⟨i, hi, rfl⟩
    have hmul : d * i + d ≤ e - a + (d - 1) := by
      have := Nat.mul_le_of_le_div _ _ _ (Nat.succ_le_of_lt hi)
      rw [Nat.succ_mul, Nat.mul_comm] at this
      exact this
    refine ⟨Nat.le_add_right _ _, ?_, Nat.add_mul_mod_self_left ..⟩
    omega
  · rintro ⟨hle, hlt, hmod⟩
    obtain ⟨i, hi⟩ : d ∣ x - a := Nat.dvd_of_mod_eq_zero (Nat.sub_mod_eq_zero_of_mod_eq hmod)
    refine ⟨i, ?_, by omega⟩
    rw [Nat.lt_div_iff_mul_lt hd]
    rw [Nat.mul_comm]
    omega

theorem steps_ascending (hd : 0 < d) : (steps d a e).Pairwise (· < ·) := by
  unfold steps
  exact List.pairwise_lt_range' _ hd

/-- **Jumping.**  Where a stretch holds nothing that is wanted, a scan may start
behind it. -/
theorem filter_steps_skip {P : Nat → Bool} (hd : 0 < d) (hle : a ≤ b) (hmod : b % d = a % d)
    (hnone : ∀ x, a ≤ x → x < b → x % d = a % d → P x = false) :
    (steps d a e).filter P = (steps d b e).filter P := by
  obtain ⟨n, hn⟩ : d ∣ b - a := Nat.dvd_of_mod_eq_zero (Nat.sub_mod_eq_zero_of_mod_eq hmod)
  induction n generalizing a with
  | zero =>
    have hab : a = b := by omega
    rw [hab]
  | succ n ih =>
    rw [Nat.mul_succ] at hn
    rcases Nat.lt_or_ge a e with hlt | hge
    · have ha : P a = false := hnone a (Nat.le_refl a) (by omega) rfl
      rw [steps_of_lt hd hlt, List.filter_cons_of_neg (by simp [ha])]
      refine ih (by omega) (by rw [hmod, Nat.add_mod_right]) (fun x hx hxb hxm => ?_) (by omega)
      rw [Nat.add_mod_right] at hxm
      exact hnone x (by omega) hxb hxm
    · rw [steps_of_ge hd hge, steps_of_ge hd (Nat.le_trans hge hle)]

end NekaKernel.Foundation
