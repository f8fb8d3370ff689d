/-
  Foundation/Fields.lean --- words made of bit fields.

  `pack` puts fields of given widths one behind the other, the first one into the
  lowest bits; `field` takes `n` bits of a word out.  A value that is wider than its
  field is cut.  A packed C structure is stored field by field, and the word of all its
  bytes is the pack of its fields.
-/
import Mathlib.Tactic.Ring
import NekaKernel.Foundation.Memory

set_option autoImplicit false

namespace NekaKernel.Foundation

/-- The `n` bits of `w` from bit `lo` on. -/
def field (w lo n : Nat) : Nat := w / 2 ^ lo % 2 ^ n

/-- The word of the fields, each a width and a value. -/
def pack : List (Nat × Nat) → Nat
  | [] => 0
  | (n, v) :: fs => v % 2 ^ n + 2 ^ n * pack fs

/-- The width of all the fields. -/
def packWidth (fs : List (Nat × Nat)) : Nat := (fs.map Prod.fst).sum

section Pack

theorem packWidth_cons (f : Nat × Nat) (fs : List (Nat × Nat)) :
    packWidth (f :: fs) = f.1 + packWidth fs := rfl

theorem pack_lt (fs : List (Nat × Nat)) : pack fs < 2 ^ packWidth fs := by
  induction fs with
  | nil => exact Nat.one_pos
  | cons f fs ih =>
    obtain ⟨n, v⟩ := f
    have hlow : v % 2 ^ n < 2 ^ n := Nat.mod_lt _ (Nat.two_pow_pos n)
    rw [packWidth_cons, pack, Nat.pow_add]
    calc v % 2 ^ n + 2 ^ n * pack fs < 2 ^ n + 2 ^ n * pack fs := by omega
      _ = 2 ^ n * (pack fs + 1) := by ring
      _ ≤ 2 ^ n * 2 ^ packWidth fs := Nat.mul_le_mul_left _ ih

theorem pack_append (fs gs : List (Nat × Nat)) :
    pack (fs ++ gs) = pack fs + 2 ^ packWidth fs * pack gs := by
  induction fs with
  | nil => simp [pack, packWidth]
  | cons f fs ih =>
    obtain ⟨n, v⟩ := f
    rw [List.cons_append, pack, ih, pack, packWidth_cons, Nat.pow_add]
    ring

/-- **A field reads back**, cut to its width. -/
theorem field_pack (fs gs : List (Nat × Nat)) (n v : Nat) :
    field (pack (fs ++ (n, v) :: gs)) (packWidth fs) n = v % 2 ^ n := by
  unfold field
  rw [pack_append, Nat.add_mul_div_left _ _ (Nat.two_pow_pos _), Nat.div_eq_of_lt (pack_lt fs),
    Nat.zero_add, pack, Nat.add_mul_mod_self_left, Nat.mod_mod]

/-- Field number `k` of a word. -/
theorem field_of_getElem {fs : List (Nat × Nat)} {lo n v : Nat} (k : Nat)
    (hk : fs[k]? = some (n, v)) (hlo : packWidth (fs.take k) = lo) :
    field (pack fs) lo n = v % 2 ^ n := by
  obtain ⟨hlt, hget⟩ := List.getElem?_eq_some_iff.mp hk
  have hsplit : fs = fs.take k ++ (n, v) :: fs.drop (k + 1) := by
    rw [← hget, List.getElem_cons_drop, List.take_append_drop]
  have hfield := field_pack (fs.take k) (fs.drop (k + 1)) n v
  rwa [← hsplit, hlo] at hfield

/-- A field as C takes it. -/
theorem shift_mask (w lo n : Nat) : (w >>> lo) &&& (2 ^ n - 1) = field w lo n := by
  rw [Nat.shiftRight_eq_div_pow, Nat.and_two_pow_sub_one_eq_mod]
  rfl

end Pack

/-! ## Packed structures -/

namespace Mem

/-- Store the fields of a packed structure at `a`, each a number of bytes and a value. -/
def writeFields (m : Mem) (a : Nat) : List (Nat × Nat) → Mem
  | [] => m
  | (n, v) :: fs => (m.write a n v).writeFields (a + n) fs

/-- The fields in bits. -/
def inBits (fs : List (Nat × Nat)) : List (Nat × Nat) := fs.map fun f => (8 * f.1, f.2)

variable {m : Mem} {a lo hi : Nat} {fs : List (Nat × Nat)}

/-- Nothing else changes. -/
theorem agree_writeFields (h : hi ≤ a ∨ a + packWidth fs ≤ lo) :
    Agree m (m.writeFields a fs) lo hi := by
  induction fs generalizing m a with
  | nil => exact Agree.refl m lo hi
  | cons f fs ih =>
    obtain ⟨n, v⟩ := f
    rw [packWidth_cons] at h
    dsimp only at h
    exact (agree_write (by omega)).trans (ih (by omega))

theorem read_add (m : Mem) (a n k : Nat) :
    m.read a (n + k) = m.read a n + 256 ^ n * m.read (a + n) k := by
  induction n generalizing a with
  | zero => simp [read]
  | succ n ih =>
    rw [show n + 1 + k = n + k + 1 by omega, read, read, ih,
      show a + 1 + n = a + (n + 1) by omega]
    ring

/-- **The bytes of a packed structure** are the pack of its fields. -/
theorem read_writeFields (m : Mem) (a : Nat) (fs : List (Nat × Nat)) :
    (m.writeFields a fs).read a (packWidth fs) = pack (inBits fs) := by
  induction fs generalizing m a with
  | nil => rfl
  | cons f fs ih =>
    obtain ⟨n, v⟩ := f
    have hhead : ((m.write a n v).writeFields (a + n) fs).read a n = v % 2 ^ (8 * n) := by
      rw [read_congr (agree_writeFields (Or.inl (Nat.le_refl _))), read_write_same, Nat.pow_mul]
    rw [packWidth_cons, writeFields, read_add, hhead, ih]
    show _ = pack ((8 * n, v) :: inBits fs)
    rw [pack, Nat.pow_mul]

end Mem

end NekaKernel.Foundation
