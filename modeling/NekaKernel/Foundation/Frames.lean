/-
  Foundation/Frames.lean --- page frames as tables of words.

  A frame is 4096 bytes from an address that is a multiple of 4096.  Read as a
  table it is 512 words of eight bytes.  Distinct frames have no byte in common,
  so a store into one table is seen in no other.  The last part is about words
  made of a frame's address and flags in its twelve low bits.
-/
import Mathlib.Algebra.Group.Nat.Defs
import NekaKernel.Foundation.Memory

set_option autoImplicit false

namespace NekaKernel.Foundation

/-- The address is a page frame's. -/
def IsFrame (f : Nat) : Prop := f % 4096 = 0

/-- `x` is a byte of frame `f`. -/
def InFrame (f x : Nat) : Prop := f ≤ x ∧ x < f + 4096

variable {f g x : Nat}

/-- A byte is in one frame only. -/
theorem InFrame.unique (hf : IsFrame f) (hg : IsFrame g) (h : InFrame f x)
    (h' : InFrame g x) : f = g := by
  unfold IsFrame at hf hg
  unfold InFrame at h h'
  omega

namespace Mem

/-- Word `i` of the table at `t`. -/
def entry (m : Mem) (t i : Nat) : Nat := m.read (t + 8 * i) 8

variable {m m' : Mem} {t t' i j v : Nat}

theorem entry_lt (m : Mem) (t i : Nat) : m.entry t i < 2 ^ 64 := m.read_lt (t + 8 * i) 8

/-- A table depends on the bytes of its frame only. -/
theorem entry_congr (hi : i < 512) (h : ∀ x, InFrame t x → m' x = m x) :
    m'.entry t i = m.entry t i := by
  apply read_congr
  intro x hlo hhi
  refine h x ⟨?_, ?_⟩ <;> omega

@[simp] theorem entry_write_self (hv : v < 2 ^ 64) : (m.write (t + 8 * i) 8 v).entry t i = v :=
  read_write_of_lt hv

/-- A store into one entry changes no other entry of any table. -/
theorem entry_write_of_ne (ht : IsFrame t) (ht' : IsFrame t') (hi : i < 512) (hj : j < 512)
    (hne : ¬ (t' = t ∧ j = i)) : (m.write (t + 8 * i) 8 v).entry t' j = m.entry t' j := by
  unfold IsFrame at ht ht'
  apply read_write_of_disjoint
  omega

/-- The two memories differ in frame `f` at most. -/
def AgreeOutside (f : Nat) (m m' : Mem) : Prop := ∀ x, ¬ InFrame f x → m' x = m x

theorem agreeOutside_write {off n : Nat} (h : off + n ≤ 4096) :
    AgreeOutside f m (m.write (f + off) n v) := by
  intro x hx
  unfold InFrame at hx
  apply write_outside
  omega

/-- What is in another frame reads the same. -/
theorem AgreeOutside.read {off n : Nat} (h : AgreeOutside f m m') (hf : IsFrame f)
    (hg : IsFrame g) (hne : f ≠ g) (hoff : off + n ≤ 4096) :
    m'.read (g + off) n = m.read (g + off) n := by
  apply read_congr
  intro x hlo hhi
  refine h x fun hx => hne ?_
  exact InFrame.unique hf hg hx ⟨by omega, by omega⟩

end Mem

/-! ## Frame addresses with flags -/

section Flags

variable {flags : Nat}

/-- Flags in the twelve low bits are added to the address. -/
theorem frame_or (hf : IsFrame f) (hflags : flags < 4096) : f ||| flags = f + flags := by
  have hshift : f = 2 ^ 12 * (f / 4096) := by
    unfold IsFrame at hf
    omega
  rw [hshift, Nat.two_pow_add_eq_or_of_lt hflags]

theorem frame_or_testBit (hf : IsFrame f) {n : Nat} (hn : n < 12) :
    (f ||| flags).testBit n = flags.testBit n := by
  have hlow : f.testBit n = false := by
    have hshift : f = f / 4096 * 2 ^ 12 := by
      unfold IsFrame at hf
      omega
    rw [hshift, Nat.testBit_mul_two_pow]
    simp [Nat.not_le_of_lt hn]
  rw [Nat.testBit_or, hlow, Bool.false_or]

end Flags

end NekaKernel.Foundation
