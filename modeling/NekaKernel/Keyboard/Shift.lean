/-
  Keyboard/Shift.lean --- which table the keyboard interrupt translates with.

  Source: `scancode_ascii`, `scancode_ascii_shift`, `shift_held` and
  `keyboard_handle_irq` in `keyboard.c`.

  The driver has one flag for two Shift keys.  A make code of either sets it and a
  break code of either clears it, so the flag shows the latest of these four codes.
  It agrees with the keys that are down except after one Shift key was released
  with the other still down.
-/
import NekaKernel.Console.Screen
import NekaKernel.Foundation.Latest
import NekaKernel.Keyboard.Buffer
import Mathlib.Data.List.GetD

set_option autoImplicit false

namespace NekaKernel.Keyboard

open NekaKernel.Foundation NekaKernel.Console

/-! ## The functions -/

/-- `scancode_ascii`, as its initializer lists it; the rest of the array is 0. -/
def scancodeAsciiInit : List UInt8 :=
  [0, 27] ++ ascii "1234567890-=\x08" ++
  ascii "\tqwertyuiop[]\n" ++
  [0] ++
  ascii "asdfghjkl;'`" ++
  [0] ++
  ascii "\\zxcvbnm,./" ++
  [0] ++
  ascii "*" ++
  [0] ++
  ascii " "

/-- `scancode_ascii_shift`. -/
def scancodeAsciiShiftInit : List UInt8 :=
  [0, 27] ++ ascii "!@#$%^&*()_+\x08" ++
  ascii "\tQWERTYUIOP\x7b\x7d\n" ++
  [0] ++
  ascii "ASDFGHJKL:\"~" ++
  [0] ++
  ascii "|ZXCVBNM<>?" ++
  [0] ++
  ascii "*" ++
  [0] ++
  ascii " "

/-- `scancode_ascii[scancode]`. -/
def scancodeAscii (scancode : UInt8) : UInt8 := scancodeAsciiInit.getD scancode.toNat 0

/-- `scancode_ascii_shift[scancode]`. -/
def scancodeAsciiShift (scancode : UInt8) : UInt8 :=
  scancodeAsciiShiftInit.getD scancode.toNat 0

/-- `KBD_SCANCODE_LSHIFT`. -/
def kbdScancodeLshift : UInt8 := 0x2A

/-- `KBD_SCANCODE_RSHIFT`. -/
def kbdScancodeRshift : UInt8 := 0x36

/-- The statics of the driver, and what it has printed. -/
structure Driver where
  shiftHeld : Int
  kbd : Kbd
  console : List UInt8

/-- At boot no key is held. -/
def Driver.boot : Driver := ⟨0, .boot, []⟩

/-- The array that `shift_held ? scancode_ascii_shift[..] : scancode_ascii[..]`
indexes. -/
def Driver.table (k : Driver) : UInt8 → UInt8 :=
  if k.shiftHeld ≠ 0 then scancodeAsciiShift else scancodeAscii

/-- Push a character and print it. -/
def Driver.echo (k : Driver) (c : UInt8) : Driver :=
  { k with
    kbd := (kbdBufferPush k.kbd c).2
    console := k.console ++ ascii "[kbd] key: '" ++ [c] ++ ascii "'\n" }

/-- `keyboard_handle_irq`, with what `inb(0x60)` reads. -/
def keyboardHandleIrq (k : Driver) (scancode : UInt8) : Driver :=
  if scancode = kbdScancodeLshift ∨ scancode = kbdScancodeRshift then
    { k with shiftHeld := 1 }
  else if scancode = kbdScancodeLshift ||| 0x80 ∨ scancode = kbdScancodeRshift ||| 0x80 then
    { k with shiftHeld := 0 }
  else if scancode &&& 0x80 ≠ 0 then k
  else
    let c := k.table scancode
    if c ≠ 0 then k.echo c else k

/-- The driver after the codes of a stream. -/
def Driver.run (codes : List UInt8) : Driver := codes.foldl keyboardHandleIrq .boot

/-! ## The keys that are down -/

/-- The break code of a key. -/
def breakCode (key : UInt8) : UInt8 := key ||| 0x80

/-- The make and the break code of a key. -/
def CodeOf (key scancode : UInt8) : Prop := scancode = key ∨ scancode = breakCode key

/-- The key is down: its latest make code is more recent than its latest break
code. -/
def Held (codes : List UInt8) (key : UInt8) : Prop := Latest (CodeOf key) codes key

/-- The two Shift keys. -/
def shiftKeys : List UInt8 := [kbdScancodeLshift, kbdScancodeRshift]

/-- The codes of the Shift keys. -/
def ShiftCode (scancode : UInt8) : Prop := ∃ key ∈ shiftKeys, CodeOf key scancode

/-- The latest code of a Shift key is the release of one while the other is down. -/
def ReleasedUnderOther (codes : List UInt8) : Prop :=
  ∃ key ∈ shiftKeys, ∃ other ∈ shiftKeys,
    Latest ShiftCode codes (breakCode key) ∧ Held codes other

/-- A make code the tables have a character for. -/
def Printable (scancode : UInt8) : Prop := scancode &&& 0x80 = 0 ∧ scancodeAscii scancode ≠ 0

instance (scancode : UInt8) : Decidable (Printable scancode) :=
  inferInstanceAs (Decidable (_ ∧ _))

section Codes

variable {k : Driver} {codes : List UInt8} {key scancode : UInt8}

theorem mem_shiftKeys : key ∈ shiftKeys ↔ key = kbdScancodeLshift ∨
    key = kbdScancodeRshift := by
  simp [shiftKeys]

theorem shiftCode_iff :
    ShiftCode scancode ↔
      (scancode = kbdScancodeLshift ∨ scancode = kbdScancodeRshift) ∨
      (scancode = kbdScancodeLshift ||| 0x80 ∨ scancode = kbdScancodeRshift ||| 0x80) := by
  simp only [ShiftCode, shiftKeys, CodeOf, breakCode, List.mem_cons, List.not_mem_nil, or_false,
    exists_eq_or_imp, exists_eq_left]
  tauto

/-- The make code of a Shift key is the break code of none. -/
theorem make_ne_break {other : UInt8} (h : key ∈ shiftKeys) (ho : other ∈ shiftKeys) :
    key ≠ breakCode other := by
  rw [mem_shiftKeys] at h ho
  rcases h with rfl | rfl <;> rcases ho with rfl | rfl <;> decide

/-- Both tables have characters for the same codes. -/
theorem tables_agree (scancode : UInt8) : scancodeAsciiShift scancode = 0 ↔
    scancodeAscii scancode = 0 := by
  have hzeros : scancodeAsciiShiftInit.map (· == 0) = scancodeAsciiInit.map (· == 0) := by
    decide +kernel
  have hcell :=
    congrArg (fun cells : List Bool => cells.getD scancode.toNat (0 == (0 : UInt8))) hzeros
  rw [List.getD_map _ 0 (fun c : UInt8 => c == 0),
    List.getD_map _ 0 (fun c : UInt8 => c == 0)] at hcell
  unfold scancodeAsciiShift scancodeAscii
  rw [← beq_iff_eq, hcell, beq_iff_eq]

theorem Printable.not_shiftCode (h : Printable scancode) : ¬ ShiftCode scancode := by
  rw [shiftCode_iff]
  rintro ((rfl | rfl) | (rfl | rfl)) <;> exact absurd h (by decide)

theorem Driver.table_ne_zero (k : Driver) (h : Printable scancode) : k.table scancode ≠ 0 := by
  unfold Driver.table
  split
  · exact fun hzero => h.2 ((tables_agree scancode).mp hzero)
  · exact h.2

/-- The tables differ, so the driver uses the shifted one exactly when its flag is set. -/
theorem Driver.table_eq_shift : k.table = scancodeAsciiShift ↔ k.shiftHeld ≠ 0 := by
  unfold Driver.table
  split
  · next h => simp [h]
  · next h =>
    have hne : scancodeAscii ≠ scancodeAsciiShift :=
      fun heq => absurd (congrFun heq 0x1E) (by decide)
    simp [hne, h]

/-! ## What one interrupt does -/

theorem keyboardHandleIrq_make (h : key ∈ shiftKeys) :
    keyboardHandleIrq k key = { k with shiftHeld := 1 } := by
  unfold keyboardHandleIrq
  exact if_pos (mem_shiftKeys.mp h)

theorem keyboardHandleIrq_break (h : key ∈ shiftKeys) :
    keyboardHandleIrq k (breakCode key) = { k with shiftHeld := 0 } := by
  have hmake : ¬ (breakCode key = kbdScancodeLshift ∨ breakCode key = kbdScancodeRshift) :=
    fun hkey => make_ne_break (mem_shiftKeys.mpr hkey) h rfl
  have hbreak : breakCode key = kbdScancodeLshift ||| 0x80 ∨
      breakCode key = kbdScancodeRshift ||| 0x80 :=
    (mem_shiftKeys.mp h).imp (congrArg breakCode) (congrArg breakCode)
  unfold keyboardHandleIrq
  rw [if_neg hmake, if_pos hbreak]

/-- A printable make code is translated with the table of the moment. -/
theorem keyboardHandleIrq_printable (h : Printable scancode) :
    keyboardHandleIrq k scancode = k.echo (k.table scancode) := by
  have hshift := h.not_shiftCode
  rw [shiftCode_iff, not_or] at hshift
  unfold keyboardHandleIrq
  rw [if_neg hshift.1, if_neg hshift.2, if_neg (by simp [h.1])]
  exact if_pos (k.table_ne_zero h)

/-- The codes of other keys leave the flag alone. -/
theorem keyboardHandleIrq_other (h : ¬ ShiftCode scancode) :
    (keyboardHandleIrq k scancode).shiftHeld = k.shiftHeld := by
  rw [shiftCode_iff, not_or] at h
  unfold keyboardHandleIrq
  rw [if_neg h.1, if_neg h.2]
  split
  · rfl
  · dsimp only
    split <;> rfl

/-! ## The flag over a stream -/

theorem Driver.run_concat : Driver.run (codes ++ [scancode]) =
    keyboardHandleIrq (.run codes) scancode := by
  simp [Driver.run]

/-- **The flag shows the latest Shift code.**  It is set exactly when that is a make
code. -/
theorem shiftHeld_iff : (Driver.run codes).shiftHeld ≠ 0 ↔
    ∃ key ∈ shiftKeys, Latest ShiftCode codes key := by
  induction codes using List.reverseRecOn with
  | nil => simp [Driver.run, Driver.boot, Latest.not_nil]
  | append_singleton codes scancode ih =>
    rw [Driver.run_concat]
    by_cases hs : ShiftCode scancode
    · simp only [Latest.concat_of hs, exists_eq_right]
      obtain ⟨key, hkey, rfl | rfl⟩ := hs
      · rw [keyboardHandleIrq_make hkey]
        simp [hkey]
      · rw [keyboardHandleIrq_break hkey]
        have hnot : breakCode key ∉ shiftKeys := fun h => make_ne_break h hkey rfl
        simp [hnot]
    · simp only [keyboardHandleIrq_other hs, Latest.concat_of_not hs]
      exact ih

/-- A key whose make code is the latest Shift code is down. -/
theorem Held.of_latest (hkey : key ∈ shiftKeys) (h : Latest ShiftCode codes key) :
    Held codes key :=
  h.mono (fun _ hc => ⟨key, hkey, hc⟩) (.inl rfl)

/-- With the flag clear and a Shift key down, the other one has just been released. -/
theorem Held.releasedUnderOther (hkey : key ∈ shiftKeys) (h : Held codes key)
    (hflag : (Driver.run codes).shiftHeld = 0) : ReleasedUnderOther codes := by
  obtain ⟨scancode, hlatest⟩ :=
    Latest.exists_of_imp h (fun _ hc => (⟨key, hkey, hc⟩ : ShiftCode _))
  obtain ⟨last, hlast, rfl | rfl⟩ := hlatest.1
  · exact absurd hflag (shiftHeld_iff.mpr ⟨_, hlast, hlatest⟩)
  · exact ⟨last, hlast, key, hkey, hlatest, h⟩

theorem ReleasedUnderOther.shiftHeld (h : ReleasedUnderOther codes) :
    (Driver.run codes).shiftHeld = 0 := by
  obtain ⟨key, hkey, other, hother, hlatest, hheld⟩ := h
  by_contra hflag
  obtain ⟨last, hlast, hmake⟩ := shiftHeld_iff.mp hflag
  exact make_ne_break hlast hkey (hmake.unique hlatest)

end Codes

/-! ## The table used -/

/-- **Shift tracking.**  After any stream of codes, a printable make code is
translated with the table of the moment, and that is the shifted one exactly when a
Shift key is down, unless the latest Shift code is the release of one Shift key with
the other still down. -/
theorem shift_tracking_iff (codes : List UInt8) (scancode : UInt8) (h : Printable scancode) :
    keyboardHandleIrq (.run codes) scancode =
      (Driver.run codes).echo ((Driver.run codes).table scancode) ∧
    (((Driver.run codes).table = scancodeAsciiShift ↔ ∃ key ∈ shiftKeys, Held codes key) ↔
      ¬ ReleasedUnderOther codes) := by
  refine ⟨keyboardHandleIrq_printable h, ?_⟩
  rw [Driver.table_eq_shift]
  constructor
  · intro hiff hreleased
    have hflag := hreleased.shiftHeld
    obtain ⟨-, -, other, hother, -, hheld⟩ := hreleased
    exact hiff.mpr ⟨other, hother, hheld⟩ hflag
  · intro hnot
    constructor
    · intro hflag
      obtain ⟨key, hkey, hlatest⟩ := shiftHeld_iff.mp hflag
      exact ⟨key, hkey, .of_latest hkey hlatest⟩
    · rintro ⟨key, hkey, hheld⟩ hflag
      exact hnot (hheld.releasedUnderOther hkey hflag)

/-- With the left Shift key down, `a` is translated with the shifted table. -/
theorem shift_tracking_left :
    keyboardHandleIrq (.run [0x2A]) 0x1E = (Driver.run [0x2A]).echo
      ((Driver.run [0x2A]).table 0x1E) ∧
    ((Driver.run [0x2A]).table = scancodeAsciiShift ↔ ∃ key ∈ shiftKeys, Held [0x2A] key) := by
  have htracking := shift_tracking_iff [0x2A] 0x1E (by decide)
  refine ⟨htracking.1, htracking.2.mpr ?_⟩
  rintro ⟨key, hkey, -, -, hlatest, -⟩
  have hmake : Latest ShiftCode [0x2A] 0x2A :=
    ⟨⟨0x2A, by decide, .inl rfl⟩, [], [], rfl, by simp⟩
  exact make_ne_break (by decide) hkey (hmake.unique hlatest)

/-- Both Shift keys go down and the right one up again.  The left one is down, and
`a` is translated with the other table. -/
theorem shift_tracking_lost :
    Printable 0x1E ∧ Held [0x2A, 0x36, 0xB6] kbdScancodeLshift ∧
    (Driver.run [0x2A, 0x36, 0xB6]).table ≠ scancodeAsciiShift ∧
    (keyboardHandleIrq (.run [0x2A, 0x36, 0xB6]) 0x1E).console = ascii "[kbd] key: 'a'\n" := by
  refine ⟨by decide, ⟨.inl rfl, [], [0x36, 0xB6], rfl, ?_⟩, ?_, by decide +kernel⟩
  · intro scancode hcode
    simp only [List.mem_cons, List.not_mem_nil, or_false] at hcode
    rcases hcode with rfl | rfl <;> exact fun h => absurd h (by unfold CodeOf; decide)
  · rw [ne_eq, Driver.table_eq_shift]
    decide

end NekaKernel.Keyboard
