/-
  Foundation/Words.lean --- 64-bit words in memory and a stack of them.

  The stack is full and descending: a push lowers the pointer by eight and then
  stores.  The file names nothing of the kernel.
-/
import NekaKernel.Foundation.Memory

set_option autoImplicit false

namespace NekaKernel.Foundation

namespace Mem

/-- The word at `a`. -/
def word (m : Mem) (a : Nat) : UInt64 := UInt64.ofNat (m.read a 8)

/-- Store the word `v` at `a`. -/
def setWord (m : Mem) (a : Nat) (v : UInt64) : Mem := m.write a 8 v.toNat

/-- The words `vs` stand one after another from `a` up. -/
def Holds (m : Mem) : Nat → List UInt64 → Prop
  | _, [] => True
  | a, v :: vs => m.word a = v ∧ m.Holds (a + 8) vs

/-- Push `vs` in order onto the stack whose pointer is `sp`. -/
def pushWords (m : Mem) : Nat → List UInt64 → Mem
  | _, [] => m
  | sp, v :: vs => (m.setWord (sp - 8) v).pushWords (sp - 8) vs

/-! ## One word -/

variable {m m' : Mem} {a b lo hi : Nat} {v : UInt64}

@[simp] theorem word_setWord : (m.setWord a v).word a = v := by
  unfold word setWord
  rw [read_write_of_lt (by simpa using v.toNat_lt), UInt64.ofNat_toNat]

theorem agree_setWord (h : hi ≤ a ∨ a + 8 ≤ lo) : Agree m (m.setWord a v) lo hi :=
  agree_write h

/-- Another store outside the range. -/
theorem Agree.setWord (h : Agree m m' lo hi) (hout : hi ≤ a ∨ a + 8 ≤ lo) :
    Agree m (m'.setWord a v) lo hi :=
  h.trans (agree_setWord hout)

theorem word_congr (h : Agree m m' a (a + 8)) : m'.word a = m.word a := by
  unfold word
  rw [read_congr h]

theorem word_setWord_of_disjoint (h : b + 8 ≤ a ∨ a + 8 ≤ b) :
    (m.setWord a v).word b = m.word b :=
  word_congr (agree_setWord h)

/-! ## Words in a row -/

variable {vs : List UInt64}

theorem Holds.congr (h : m.Holds a vs) (hagree : Agree m m' a (a + 8 * vs.length)) :
    m'.Holds a vs := by
  induction vs generalizing a with
  | nil => trivial
  | cons v vs ih =>
    rw [List.length_cons] at hagree
    refine ⟨?_, ih h.2 (hagree.mono (by omega) (by omega))⟩
    rw [word_congr (hagree.mono (Nat.le_refl a) (by omega))]
    exact h.1

theorem holds_append {us : List UInt64} :
    m.Holds a (us ++ vs) ↔ m.Holds a us ∧ m.Holds (a + 8 * us.length) vs := by
  induction us generalizing a with
  | nil => simp [Holds]
  | cons u us ih =>
    rw [List.cons_append, Holds, Holds, ih, and_assoc, List.length_cons,
      show a + 8 + 8 * us.length = a + 8 * (us.length + 1) by omega]

/-! ## The stack -/

theorem pushWords_append (m : Mem) (us vs : List UInt64) (sp : Nat) :
    m.pushWords sp (us ++ vs) = (m.pushWords sp us).pushWords (sp - 8 * us.length) vs := by
  induction us generalizing m sp with
  | nil => rfl
  | cons u us ih =>
    rw [List.cons_append, pushWords, ih, pushWords, List.length_cons,
      show sp - 8 - 8 * us.length = sp - 8 * (us.length + 1) by omega]

/-- A push changes only the words it pushes. -/
theorem agree_pushWords {sp : Nat} (h : hi ≤ sp - 8 * vs.length ∨ sp ≤ lo)
    (hroom : 8 * vs.length ≤ sp) : Agree m (m.pushWords sp vs) lo hi := by
  induction vs generalizing m sp with
  | nil => exact Agree.refl m lo hi
  | cons v vs ih =>
    rw [List.length_cons] at h hroom
    rw [pushWords]
    exact (agree_setWord (by omega)).trans (ih (by omega) (by omega))

/-- What was pushed stands in memory, the last word lowest. -/
theorem holds_pushWords {sp : Nat} (hroom : 8 * vs.length ≤ sp) :
    (m.pushWords sp vs).Holds (sp - 8 * vs.length) vs.reverse := by
  induction vs generalizing m sp with
  | nil => trivial
  | cons v vs ih =>
    rw [List.length_cons] at hroom
    rw [pushWords, List.reverse_cons, holds_append, List.length_cons, List.length_reverse,
      show sp - 8 * (vs.length + 1) = sp - 8 - 8 * vs.length by omega]
    refine ⟨ih (by omega), ?_, trivial⟩
    -- the first word lies just above the ones pushed after it
    rw [show sp - 8 - 8 * vs.length + 8 * vs.length = sp - 8 by omega,
      word_congr (agree_pushWords (by omega) (by omega)), word_setWord]

end Mem

end NekaKernel.Foundation
