/-
  Kernel/Basic.lean --- what every part of the kernel's model shares: `size_t`
  and pointer arithmetic modulo `2 ^ 64`, pages, and the ways a call can end.

  Source: `panic.c` and the C types used throughout the kernel.
-/
import Mathlib.Algebra.Group.Nat.Defs

set_option autoImplicit false

namespace NekaKernel.Kernel

/-! ## 64-bit arithmetic -/

/-- `a + b` in `uint64_t`. -/
def add64 (a b : Nat) : Nat := (a + b) % 2 ^ 64

/-- `a - b` in `uint64_t`, for operands that are already `uint64_t`. -/
def sub64 (a b : Nat) : Nat := (a + (2 ^ 64 - b)) % 2 ^ 64

theorem add64_of_lt {a b : Nat} (h : a + b < 2 ^ 64) : add64 a b = a + b :=
  Nat.mod_eq_of_lt h

theorem sub64_of_le {a b : Nat} (hb : b ≤ a) (ha : a < 2 ^ 64) : sub64 a b = a - b := by
  unfold sub64
  rw [show a + (2 ^ 64 - b) = a - b + 2 ^ 64 by omega, Nat.add_mod_right]
  exact Nat.mod_eq_of_lt (by omega)

/-! ## Pages -/

/-- `x & ~0xFFFULL`. -/
def pageMask (x : Nat) : Nat := x &&& 0xFFFFFFFFFFFFF000

theorem pageMask_eq {x : Nat} (h : x < 2 ^ 64) : pageMask x = x / 4096 * 4096 := by
  have hmask : (0xFFFFFFFFFFFFF000 : Nat) = (2 ^ 52 - 1) * 2 ^ 12 := by decide
  have hdiv : x / 4096 * 4096 = x / 2 ^ 12 * 2 ^ 12 := rfl
  unfold pageMask
  apply Nat.eq_of_testBit_eq
  intro i
  rw [hmask, hdiv, Nat.testBit_and, Nat.testBit_mul_two_pow, Nat.testBit_mul_two_pow,
    Nat.testBit_two_pow_sub_one, Nat.testBit_div_two_pow]
  by_cases h12 : 12 ≤ i
  · rw [Nat.sub_add_cancel h12]
    by_cases h64 : i < 64
    · simp [h12, show i - 12 < 52 by omega]
    · have hlt : x < 2 ^ i := Nat.lt_of_lt_of_le h (Nat.pow_le_pow_right (by decide) (by omega))
      simp [Nat.testBit_lt_two_pow hlt]
  · simp [h12]

/-! ## How a call ends -/

/-- The first argument of `neka_panic`. -/
inductive PanicCategory where
  | HEAP
  | MEMMAP
  | PAGING
  | APIC
  | SCHED
  deriving DecidableEq, Repr, Inhabited

/-- How a kernel call ends.  `neka_panic` disables interrupts and halts, so
nothing runs after `panic`; `hang` is a loop of the source that never ends. -/
inductive Exit (α : Type) where
  | ret (value : α)
  | panic (category : PanicCategory) (code : Nat)
  | hang
  deriving DecidableEq, Repr, Inhabited

/-- The number of iterations after which a pointer-chasing loop is in a cycle:
there are no more 64-bit pointers to visit. -/
def loopFuel : Nat := 2 ^ 64

end NekaKernel.Kernel
