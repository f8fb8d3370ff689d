/-
  Foundation/Memory.lean --- byte-addressed memory with little-endian words.

  Addresses are natural numbers and every cell holds one byte.  A word of `n`
  bytes is read and written little-endian, which is what the x86-64 loads and
  stores behind the kernel's C structures do.  The file names nothing of the
  kernel: the heap, the thread stacks and the firmware tables all live in it.
-/
import Mathlib.Algebra.Group.Nat.Defs

set_option autoImplicit false

namespace NekaKernel.Foundation

/-- Memory: one byte for every address. -/
def Mem : Type := Nat → UInt8

namespace Mem

/-- The little-endian word of `n` bytes at `a`. -/
def read (m : Mem) (a : Nat) : Nat → Nat
  | 0 => 0
  | n + 1 => (m a).toNat + 256 * read m (a + 1) n

/-- Store the low `n` bytes of `v` at `a`, little-endian. -/
def write (m : Mem) (a n v : Nat) : Mem := fun x =>
  if a ≤ x ∧ x < a + n then UInt8.ofNat (v / 256 ^ (x - a)) else m x

/-- Two memories agree on the half-open range `[lo, hi)`. -/
def Agree (m m' : Mem) (lo hi : Nat) : Prop := ∀ x, lo ≤ x → x < hi → m' x = m x

/-! ## Reads -/

/-- A read depends only on the bytes it covers. -/
theorem read_congr {m m' : Mem} {a n : Nat} (h : Agree m m' a (a + n)) :
    m'.read a n = m.read a n := by
  induction n generalizing a with
  | zero => rfl
  | succ n ih =>
    have hhead : m' a = m a := h a (Nat.le_refl a) (by omega)
    have htail : m'.read (a + 1) n = m.read (a + 1) n :=
      ih (fun x hlo hhi => h x (by omega) (by omega))
    simp only [read, hhead, htail]

theorem read_lt (m : Mem) (a n : Nat) : m.read a n < 256 ^ n := by
  induction n generalizing a with
  | zero => simp [read]
  | succ n ih =>
    have hbyte : (m a).toNat < 256 := (m a).toNat_lt
    have hrest := ih (a + 1)
    rw [read, Nat.pow_succ]
    omega

/-! ## Writes -/

theorem write_outside {m : Mem} {a n v x : Nat} (h : x < a ∨ a + n ≤ x) :
    m.write a n v x = m x := by
  unfold write
  rw [if_neg (by omega)]

/-- A write leaves every range it does not meet as it was. -/
theorem agree_write {m : Mem} {a n v lo hi : Nat} (h : hi ≤ a ∨ a + n ≤ lo) :
    Agree m (m.write a n v) lo hi := by
  intro x hlo hhi
  exact write_outside (by omega)

/-- Read over a write to somewhere else. -/
theorem read_write_of_disjoint {m : Mem} {a n v b k : Nat} (h : b + k ≤ a ∨ a + n ≤ b) :
    (m.write a n v).read b k = m.read b k :=
  read_congr (agree_write h)

/-- Part of a written word reads back as the matching bytes of the value. -/
theorem read_write_part (m : Mem) (a n v : Nat) :
    ∀ (k i : Nat), i + k ≤ n → (m.write a n v).read (a + i) k = v / 256 ^ i % 256 ^ k := by
  intro k
  induction k with
  | zero => intro i _; simp [read, Nat.mod_one]
  | succ k ih =>
    intro i hik
    have hbyte : ((m.write a n v) (a + i)).toNat = v / 256 ^ i % 256 := by
      unfold write
      rw [if_pos (by omega), Nat.add_sub_cancel_left]
      simp
    have hrest : (m.write a n v).read (a + i + 1) k = v / 256 ^ (i + 1) % 256 ^ k :=
      ih (i + 1) (by omega)
    rw [read, hbyte, hrest, Nat.pow_succ 256 k, Nat.mul_comm (256 ^ k) 256, Nat.mod_mul,
      Nat.pow_succ 256 i, ← Nat.div_div_eq_div_mul]

/-- A written word reads back, cut to its width. -/
theorem read_write_same (m : Mem) (a n v : Nat) :
    (m.write a n v).read a n = v % 256 ^ n := by
  simpa using read_write_part m a n v n 0 (by omega)

/-- A written word that fits its width reads back unchanged. -/
theorem read_write_of_lt {m : Mem} {a n v : Nat} (h : v < 256 ^ n) :
    (m.write a n v).read a n = v := by
  rw [read_write_same, Nat.mod_eq_of_lt h]

/-- A byte of a word. -/
theorem read_byte (m : Mem) :
    ∀ {a n i : Nat}, i < n → m.read a n / 256 ^ i % 256 = (m (a + i)).toNat := by
  intro a n
  induction n generalizing a with
  | zero => exact fun hi => absurd hi (Nat.not_lt_zero _)
  | succ n ih =>
    intro i hi
    have hbyte : (m a).toNat < 256 := (m a).toNat_lt
    cases i with
    | zero =>
      rw [read, Nat.pow_zero, Nat.div_one]
      dsimp only [Nat.add_zero]
      omega
    | succ i =>
      have hrest : ((m a).toNat + 256 * m.read (a + 1) n) / 256 = m.read (a + 1) n := by omega
      rw [read, Nat.pow_succ', ← Nat.div_div_eq_div_mul, hrest, ih (Nat.lt_of_succ_lt_succ hi),
        Nat.add_assoc, Nat.add_comm 1 i]

/-- Storing a word over itself changes nothing. -/
theorem write_read (m : Mem) (a n : Nat) : m.write a n (m.read a n) = m := by
  funext x
  unfold write
  split
  · rename_i hx
    apply UInt8.toNat.inj
    rw [UInt8.toNat_ofNat', read_byte m (by omega), Nat.add_sub_cancel' hx.1]
  · rfl

theorem write_zero (m : Mem) (a v : Nat) : m.write a 0 v = m := by
  funext x
  exact write_outside (by omega)

/-- A store byte by byte. -/
theorem write_succ (m : Mem) (a n v : Nat) :
    m.write a (n + 1) v = (m.write a 1 v).write (a + 1) n (v / 256) := by
  funext x
  unfold write
  by_cases hx : a + 1 ≤ x ∧ x < a + 1 + n
  · rw [if_pos hx, if_pos (by omega), show x - a = x - (a + 1) + 1 by omega, Nat.pow_succ',
      Nat.div_div_eq_div_mul]
  · rw [if_neg hx]
    by_cases hfirst : x = a
    · rw [if_pos (by omega), if_pos (by omega)]
    · rw [if_neg (by omega), if_neg (by omega)]

/-! ## Agreement -/

theorem Agree.refl (m : Mem) (lo hi : Nat) : Agree m m lo hi := fun _ _ _ => rfl

theorem Agree.trans {m m' m'' : Mem} {lo hi : Nat} (h : Agree m m' lo hi)
    (h' : Agree m' m'' lo hi) : Agree m m'' lo hi := by
  intro x hlo hhi
  rw [h' x hlo hhi, h x hlo hhi]

theorem Agree.mono {m m' : Mem} {lo hi lo' hi' : Nat} (h : Agree m m' lo hi)
    (hlo : lo ≤ lo') (hhi : hi' ≤ hi) : Agree m m' lo' hi' := by
  intro x hxlo hxhi
  exact h x (Nat.le_trans hlo hxlo) (Nat.lt_of_lt_of_le hxhi hhi)

end Mem

end NekaKernel.Foundation
