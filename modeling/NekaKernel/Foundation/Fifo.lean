/-
  Foundation/Fifo.lean --- a queue in a circular array.

  The cells are `n` places of an array, used around the end.  `window cells n tail
  count` is what stands in the `count` cells from `tail` on.  Writing the cell after
  the window appends to it, and moving `tail` on by one takes its first element
  away, so the window is a queue.  `occupied n head tail` is the number of cells in
  use when `head` is the next cell to write.
-/
import Mathlib.Data.List.Range
import Mathlib.Data.Nat.ModEq
import Mathlib.Logic.Function.Basic

set_option autoImplicit false

namespace NekaKernel.Foundation

section Fifo

variable {α : Type}

/-- The contents of `count` cells from `tail` on, around the end. -/
def window (cells : Nat → α) (n tail count : Nat) : List α :=
  (List.range count).map fun i => cells ((tail + i) % n)

/-- How many cells are in use between `tail` and `head`. -/
def occupied (n head tail : Nat) : Nat := (head + n - tail) % n

variable {cells : Nat → α} {n head tail count : Nat}

@[simp] theorem window_length : (window cells n tail count).length = count := by
  simp [window]

/-- The cell behind the window is none of its cells. -/
theorem cell_ne (tail : Nat) {i : Nat} (hi : i < count) (hcount : count < n) :
    (tail + i) % n ≠ (tail + count) % n := by
  intro heq
  have hdvd : count - i ≡ 0 [MOD n] := by
    have hmod : tail + i + (count - i) ≡ tail + i + 0 [MOD n] := by
      rw [Nat.add_assoc, Nat.add_sub_cancel' (Nat.le_of_lt hi), Nat.add_zero]
      exact heq.symm
    exact Nat.ModEq.add_left_cancel' _ hmod
  have hzero : count - i = 0 := by
    have h := hdvd
    unfold Nat.ModEq at h
    rwa [Nat.mod_eq_of_lt (by omega), Nat.zero_mod] at h
  omega

/-- A store into the cell behind the window appends to it. -/
theorem window_push (hcount : count < n) (x : α) :
    window (Function.update cells ((tail + count) % n) x) n tail (count + 1) =
      window cells n tail count ++ [x] := by
  unfold window
  rw [List.range_succ, List.map_append]
  congr 1
  · apply List.map_congr_left
    intro i hi
    exact Function.update_of_ne (cell_ne tail (List.mem_range.mp hi) hcount) _ _
  · simp

/-- The first element of the window, and the window behind it. -/
theorem window_pop : window cells n tail (count + 1) =
    cells (tail % n) :: window cells n ((tail + 1) % n) count := by
  unfold window
  rw [List.range_succ_eq_map, List.map_cons, List.map_map, Nat.add_zero]
  congr 1
  apply List.map_congr_left
  intro i _
  simp only [Function.comp_apply, Nat.succ_eq_add_one, Nat.mod_add_mod]
  congr 2
  omega

/-! ## Occupied cells -/

theorem occupied_lt (tail : Nat) (hhead : head < n) :
    occupied n head tail < n := Nat.mod_lt _ (by omega)

/-- The next cell to write is the one behind the occupied ones. -/
theorem tail_add_occupied (hhead : head < n) (htail : tail < n) :
    (tail + occupied n head tail) % n = head := by
  unfold occupied
  rw [Nat.add_mod_mod, Nat.add_sub_cancel' (by omega), Nat.add_mod_right,
    Nat.mod_eq_of_lt hhead]

theorem occupied_eq_zero (hhead : head < n) (htail : tail < n) :
    occupied n head tail = 0 ↔ tail = head := by
  constructor
  · intro hzero
    have h := tail_add_occupied hhead htail
    rwa [hzero, Nat.add_zero, Nat.mod_eq_of_lt htail] at h
  · rintro rfl
    unfold occupied
    rw [Nat.add_sub_cancel_left, Nat.mod_self]

/-- All cells but one are in use exactly when the next cell to write after `head`
is `tail`. -/
theorem occupied_full (hhead : head < n) (htail : tail < n) :
    occupied n head tail + 1 = n ↔ (head + 1) % n = tail := by
  have hstep : (tail + (occupied n head tail + 1)) % n = (head + 1) % n := by
    rw [← Nat.add_assoc, ← Nat.mod_add_mod, tail_add_occupied hhead htail]
  have hlt : occupied n head tail < n := occupied_lt tail hhead
  constructor
  · intro hfull
    rw [← hstep, hfull, Nat.add_mod_right, Nat.mod_eq_of_lt htail]
  · intro heq
    rw [heq] at hstep
    by_contra hne
    have hcell : (tail + 0) % n = (tail + (occupied n head tail + 1)) % n := by
      rw [hstep, Nat.add_zero, Nat.mod_eq_of_lt htail]
    exact cell_ne tail (Nat.succ_pos _) (by omega) hcell

theorem occupied_push (hhead : head < n) (htail : tail < n) (hroom : (head + 1) % n ≠ tail) :
    occupied n ((head + 1) % n) tail = occupied n head tail + 1 := by
  have hlt : occupied n head tail + 1 < n := by
    have hle := occupied_lt tail hhead
    have hnot := mt (occupied_full hhead htail).mp hroom
    omega
  have hnext : (head + 1) % n < n := Nat.mod_lt _ (by omega)
  by_contra hne
  have h := tail_add_occupied hnext htail
  have h' : (tail + (occupied n head tail + 1)) % n = (head + 1) % n := by
    rw [← Nat.add_assoc, ← Nat.mod_add_mod, tail_add_occupied hhead htail]
  have hlt' : occupied n ((head + 1) % n) tail < n := occupied_lt tail hnext
  rcases Nat.lt_or_gt_of_ne hne with hless | hmore
  · exact cell_ne tail hless hlt (h.trans h'.symm)
  · exact cell_ne tail hmore hlt' (h'.trans h.symm)

theorem occupied_pop (hhead : head < n) (htail : tail < n) (hne : tail ≠ head) :
    occupied n head tail = occupied n head ((tail + 1) % n) + 1 := by
  unfold occupied
  by_cases hlast : tail + 1 = n
  · rw [hlast, Nat.mod_self, Nat.sub_zero, Nat.add_mod_right, Nat.mod_eq_of_lt hhead,
      show head + n - tail = head + 1 by omega, Nat.mod_eq_of_lt (by omega)]
  · rw [Nat.mod_eq_of_lt (show tail + 1 < n by omega)]
    by_cases hle : tail < head
    · rw [show head + n - tail = head - tail + n by omega,
        show head + n - (tail + 1) = head - (tail + 1) + n by omega,
        Nat.add_mod_right, Nat.add_mod_right, Nat.mod_eq_of_lt (by omega),
          Nat.mod_eq_of_lt (by omega)]
      omega
    · rw [Nat.mod_eq_of_lt (by omega), Nat.mod_eq_of_lt (by omega)]
      omega

end Fifo

end NekaKernel.Foundation
