/-
  Console/Screen.lean --- the text screen, character by character.

  Source: `putc_vga` and the statics of `terminal64.c`.
-/
import Mathlib.Logic.Function.Basic

set_option autoImplicit false

namespace NekaKernel.Console

/-- The bytes of a string literal. -/
def ascii (s : String) : List UInt8 := s.toList.map fun c => c.toNat.toUInt8

/-- The cells from `VGA_MEMORY` on, and `term_row` and `term_col`. -/
structure Screen where
  vga : Nat → BitVec 16
  termRow : Nat
  termCol : Nat

/-- `putc_vga`.  `char` is signed, so the conversion to `uint16_t` extends the sign. -/
def putcVga (t : Screen) (c : UInt8) : Screen :=
  if c = 0x0A then
    { t with termCol := 0, termRow := if 25 ≤ t.termRow + 1 then 0 else t.termRow + 1 }
  else
    let vga := Function.update t.vga (t.termRow * 80 + t.termCol)
      (c.toBitVec.signExtend 16 ||| 0x0A00#16)
    if 80 ≤ t.termCol + 1 then ⟨vga, if 25 ≤ t.termRow + 1 then 0 else t.termRow + 1, 0⟩
    else ⟨vga, t.termRow, t.termCol + 1⟩

/-- The cursor is on the screen. -/
structure Screen.OnScreen (t : Screen) : Prop where
  row : t.termRow < 25
  col : t.termCol < 80

/-- The cursor stays on the screen. -/
theorem Screen.OnScreen.putcVga {t : Screen} (h : t.OnScreen) (c : UInt8) :
    (putcVga t c).OnScreen := by
  obtain ⟨hrow, hcol⟩ := h
  have hnext : (if 25 ≤ t.termRow + 1 then 0 else t.termRow + 1) < 25 := by split <;> omega
  unfold Console.putcVga
  dsimp only
  split
  · exact ⟨hnext, Nat.zero_lt_succ _⟩
  · split
    · exact ⟨hnext, Nat.zero_lt_succ _⟩
    · exact ⟨hrow, by dsimp only; omega⟩

end NekaKernel.Console
