/-
  Foundation/Records.lean --- records of different lengths, one behind the other.

  Firmware hands its tables over as records that carry their own length.  `stands m
  a e` says that record `e` is in memory at `a`, and `width e` is how far the next
  record is from it; bytes of a record that `stands` does not speak of are
  arbitrary.
-/
import Mathlib.Algebra.GroupWithZero.Nat
import NekaKernel.Foundation.Memory

set_option autoImplicit false

namespace NekaKernel.Foundation

section Records

variable {ε : Type} (stands : Mem → Nat → ε → Prop) (width : ε → Nat)

/-- The records stand from `a` on. -/
def Laid (m : Mem) : Nat → List ε → Prop
  | _, [] => True
  | a, e :: es => stands m a e ∧ Laid m (a + width e) es

/-- The bytes of the records. -/
def span (es : List ε) : Nat := (es.map width).sum

variable {stands width}

@[simp] theorem span_nil : span width ([] : List ε) = 0 := rfl

@[simp] theorem span_cons (e : ε) (es : List ε) :
    span width (e :: es) = width e + span width es := by
  simp [span]

theorem length_le_span {es : List ε} (h : ∀ e ∈ es, 0 < width e) :
    es.length ≤ span width es := by
  induction es with
  | nil => exact Nat.zero_le _
  | cons e es ih =>
    have hfirst := h e List.mem_cons_self
    have hrest := ih fun d hd => h d (List.mem_cons_of_mem e hd)
    rw [List.length_cons, span_cons]
    omega

end Records

end NekaKernel.Foundation
