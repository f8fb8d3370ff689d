/-
  Idt/Gates.lean --- the interrupt descriptor table.

  Source: `idt_set_gate`, `idt_init` and `idt_load_current_cpu` in `idt.c`, with
  `idt_entry_t` and `idt_ptr_t` of `idt.h`.

  `idt_entry_t` is a packed structure, stored field by field.  A processor reads the
  16 bytes of a vector as one word, with the address of the handler in three parts.
-/
import NekaKernel.Foundation.Fields
import NekaKernel.Foundation.Latest

set_option autoImplicit false

namespace NekaKernel.Idt

open NekaKernel.Foundation

/-! ## The functions -/

/-- `sizeof(idt_entry_t)`. -/
def sizeofIdtEntry : Nat := 16

/-- The fields of `idt_entry_t` in order, each its bytes and what `idt_set_gate` stores. -/
def idtEntry (handler : UInt64) (ist dpl : UInt8) : List (Nat × Nat) :=
  [(2, (handler &&& 0xFFFF).toNat), -- `offset_low`
    (2, 0x08), -- `selector`
    (1, ist.toNat), -- `ist`
    (1, ((0x80 : UInt8) ||| (dpl &&& 3) <<< 5 ||| 0x0E).toNat), -- `type_attr`
    (2, ((handler >>> 16) &&& 0xFFFF).toNat), -- `offset_mid`
    (4, ((handler >>> 32) &&& 0xFFFFFFFF).toNat), -- `offset_high`
    (4, 0)] -- `zero`

/-- `&idt[vector]`, for the table at `idt`. -/
def entryAt (idt : Nat) (vector : UInt8) : Nat := idt + vector.toNat * sizeofIdtEntry

/-- `idt_set_gate`. -/
def idtSetGate (idt : Nat) (m : Mem) (vector : UInt8) (handler : UInt64)
    (ist dpl : UInt8) : Mem :=
  m.writeFields (entryAt idt vector) (idtEntry handler ist dpl)

/-! ## What a processor finds -/

/-- A gate: its fields as the processor takes them. -/
structure Gate where
  handler : Nat
  selector : Nat
  ist : Nat
  type : Nat
  system : Nat
  dpl : Nat
  present : Nat
  deriving DecidableEq, Repr

/-- The gate in the 16 bytes at `a`. -/
def gateAt (m : Mem) (a : Nat) : Gate :=
  let w := m.read a 16
  { handler := field w 0 16 + field w 48 16 * 2 ^ 16 + field w 64 32 * 2 ^ 32
    selector := field w 16 16
    ist := field w 32 3
    type := field w 40 4
    system := field w 44 1
    dpl := field w 45 2
    present := field w 47 1 }

section Gates

variable {m m' : Mem} {idt a : Nat} {vector other : UInt8} {handler : UInt64} {ist dpl : UInt8}

/-- The bits of an entry. -/
def gateBits (handler : UInt64) (ist dpl : UInt8) : List (Nat × Nat) :=
  [(16, handler.toNat), (16, 0x08), (3, ist.toNat), (5, ist.toNat / 2 ^ 3), (4, 0xE), (1, 0),
    (2, dpl.toNat), (1, 1), (16, handler.toNat / 2 ^ 16), (32, handler.toNat / 2 ^ 32), (32, 0)]

theorem typeAttr_bits (dpl : UInt8) :
    ((0x80 : UInt8) ||| (dpl &&& 3) <<< 5 ||| 0x0E).toNat =
      pack [(4, 0xE), (1, 0), (2, dpl.toNat), (1, 1)] := by
  obtain ⟨b⟩ := dpl
  revert b
  decide

theorem offset_low (handler : UInt64) :
    (handler &&& 0xFFFF).toNat = field handler.toNat 0 16 := by
  rw [UInt64.toNat_and]
  exact shift_mask handler.toNat 0 16

theorem offset_mid (handler : UInt64) :
    ((handler >>> 16) &&& 0xFFFF).toNat = field handler.toNat 16 16 := by
  rw [UInt64.toNat_and, UInt64.toNat_shiftRight]
  exact shift_mask handler.toNat 16 16

theorem offset_high (handler : UInt64) :
    ((handler >>> 32) &&& 0xFFFFFFFF).toNat = field handler.toNat 32 32 := by
  rw [UInt64.toNat_and, UInt64.toNat_shiftRight]
  exact shift_mask handler.toNat 32 32

/-- The bytes that are stored, and the bits they are made of. -/
theorem pack_idtEntry (handler : UInt64) (ist dpl : UInt8) :
    pack (Mem.inBits (idtEntry handler ist dpl)) = pack (gateBits handler ist dpl) := by
  unfold idtEntry Mem.inBits gateBits
  rw [typeAttr_bits, offset_low, offset_mid, offset_high]
  simp only [List.map_cons, List.map_nil, pack, field]
  omega

/-- The word of an entry that was set. -/
theorem read_idtSetGate (m : Mem) (idt : Nat) (vector : UInt8) (handler : UInt64)
    (ist dpl : UInt8) :
    (idtSetGate idt m vector handler ist dpl).read (entryAt idt vector) 16 =
      pack (gateBits handler ist dpl) := by
  rw [← pack_idtEntry]
  exact Mem.read_writeFields m (entryAt idt vector) (idtEntry handler ist dpl)

/-- **The gate that was set.** -/
theorem gateAt_idtSetGate (m : Mem) (idt : Nat) (vector : UInt8) (handler : UInt64)
    (ist dpl : UInt8) :
    gateAt (idtSetGate idt m vector handler ist dpl) (entryAt idt vector) =
      ⟨handler.toNat, 0x08, ist.toNat % 2 ^ 3, 0xE, 0, dpl.toNat % 2 ^ 2, 1⟩ := by
  have hlow : field (pack (gateBits handler ist dpl)) 0 16 = handler.toNat % 2 ^ 16 :=
    field_of_getElem 0 rfl rfl
  have hselector : field (pack (gateBits handler ist dpl)) 16 16 = 0x08 % 2 ^ 16 :=
    field_of_getElem 1 rfl rfl
  have hist : field (pack (gateBits handler ist dpl)) 32 3 = ist.toNat % 2 ^ 3 :=
    field_of_getElem 2 rfl rfl
  have htype : field (pack (gateBits handler ist dpl)) 40 4 = 0xE % 2 ^ 4 :=
    field_of_getElem 4 rfl rfl
  have hsystem : field (pack (gateBits handler ist dpl)) 44 1 = 0 % 2 ^ 1 :=
    field_of_getElem 5 rfl rfl
  have hdpl : field (pack (gateBits handler ist dpl)) 45 2 = dpl.toNat % 2 ^ 2 :=
    field_of_getElem 6 rfl rfl
  have hpresent : field (pack (gateBits handler ist dpl)) 47 1 = 1 % 2 ^ 1 :=
    field_of_getElem 7 rfl rfl
  have hmid : field (pack (gateBits handler ist dpl)) 48 16 = handler.toNat / 2 ^ 16 % 2 ^ 16 :=
    field_of_getElem 8 rfl rfl
  have hhigh : field (pack (gateBits handler ist dpl)) 64 32 =
    handler.toNat / 2 ^ 32 % 2 ^ 32 := field_of_getElem 9 rfl rfl
  have haddress : handler.toNat % 2 ^ 16 + handler.toNat / 2 ^ 16 % 2 ^ 16 * 2 ^ 16 +
      handler.toNat / 2 ^ 32 % 2 ^ 32 * 2 ^ 32 = handler.toNat := by
    have hlt : handler.toNat < 2 ^ 64 := handler.toNat_lt
    omega
  unfold gateAt
  rw [read_idtSetGate]
  dsimp only
  rw [hlow, hselector, hist, htype, hsystem, hdpl, hpresent, hmid, hhigh, haddress]
  rfl

/-- **The other vectors** keep their bytes. -/
theorem agree_idtSetGate (hne : other ≠ vector) :
    Mem.Agree m (idtSetGate idt m vector handler ist dpl)
    (entryAt idt other) (entryAt idt other + sizeofIdtEntry) := by
  have hindex : other.toNat ≠ vector.toNat := fun heq => hne (UInt8.toNat_inj.mp heq)
  have hwidth : packWidth (idtEntry handler ist dpl) = 16 := rfl
  refine Mem.agree_writeFields ?_
  rw [hwidth]
  unfold entryAt sizeofIdtEntry
  omega

theorem gateAt_congr (h : Mem.Agree m m' a (a + sizeofIdtEntry)) :
    gateAt m' a = gateAt m a := by
  have hword : m'.read a 16 = m.read a 16 := Mem.read_congr h
  unfold gateAt
  rw [hword]

end Gates

/-! ## The table -/

/-- A call of `idt_set_gate`. -/
structure GateCall where
  vector : UInt8
  handler : UInt64
  ist : UInt8
  dpl : UInt8

/-- Calls of `idt_set_gate`, one after the other. -/
def idtSetGates (idt : Nat) (m : Mem) (calls : List GateCall) : Mem :=
  calls.foldl (fun m c => idtSetGate idt m c.vector c.handler c.ist c.dpl) m

/-- The calls of `idt_init`, for the addresses of `isr0` to `isr33` and `isr128`. -/
def idtInitCalls (isr : UInt8 → UInt64) : List GateCall :=
  ((List.range 34).map fun v => ⟨v.toUInt8, isr v.toUInt8, 0, 0⟩) ++ [⟨128, isr 128, 0, 3⟩]

/-- `idt_ptr_t`. -/
structure IdtPtr where
  limit : Nat
  base : Nat

/-- The table in memory, `idt_ptr`, and the IDTR of each processor. -/
structure Interrupts where
  mem : Mem
  idtPtr : IdtPtr
  idtr : Nat → IdtPtr

/-- `idt_load_current_cpu` on processor `c`. -/
def idtLoadCurrentCpu (s : Interrupts) (c : Nat) : Interrupts :=
  { s with idtr := Function.update s.idtr c s.idtPtr }

/-- `idt_init` on processor `c`. -/
def idtInit (idt : Nat) (isr : UInt8 → UInt64) (s : Interrupts) (c : Nat) : Interrupts :=
  idtLoadCurrentCpu { s with
    idtPtr := ⟨256 * sizeofIdtEntry - 1, idt⟩,
      mem := idtSetGates idt s.mem (idtInitCalls isr) } c

/-- The gate that processor `c` takes for a vector; beyond the limit there is none. -/
def Interrupts.gate (s : Interrupts) (c : Nat) (vector : UInt8) : Option Gate :=
  if vector.toNat * 16 + 15 ≤ (s.idtr c).limit then
    some (gateAt s.mem ((s.idtr c).base + vector.toNat * 16)) else none

section Table

variable {m : Mem} {idt : Nat} {vector : UInt8} {calls : List GateCall} {call : GateCall}

theorem idtSetGates_concat (idt : Nat) (m : Mem) (calls : List GateCall) (c : GateCall) :
    idtSetGates idt m (calls ++ [c]) = idtSetGate idt (idtSetGates idt m calls)
      c.vector c.handler c.ist c.dpl :=
  List.foldl_append

/-- A vector that is not set keeps its gate. -/
theorem gateAt_idtSetGates_of_ne (h : ∀ c ∈ calls, c.vector ≠ vector) :
    gateAt (idtSetGates idt m calls) (entryAt idt vector) = gateAt m (entryAt idt vector) := by
  induction calls using List.reverseRecOn with
  | nil => rfl
  | append_singleton calls c ih =>
    have hc : vector ≠ c.vector := (h c (by simp)).symm
    rw [idtSetGates_concat, gateAt_congr (agree_idtSetGate hc)]
    exact ih fun d hd => h d (List.mem_append_left _ hd)

/-- **A vector has the gate that was set last.** -/
theorem gateAt_idtSetGates (h : Latest (fun c => c.vector = vector) calls call) :
    gateAt (idtSetGates idt m calls) (entryAt idt vector) =
      ⟨call.handler.toNat, 0x08, call.ist.toNat % 2 ^ 3, 0xE, 0,
        call.dpl.toNat % 2 ^ 2, 1⟩ := by
  induction calls using List.reverseRecOn with
  | nil => exact absurd h Latest.not_nil
  | append_singleton calls c ih =>
    rw [idtSetGates_concat]
    by_cases hc : c.vector = vector
    · rw [(Latest.concat_of (P := fun c : GateCall => c.vector = vector) hc).mp h, ← hc]
      exact gateAt_idtSetGate _ _ _ _ _ _
    · rw [gateAt_congr (agree_idtSetGate (Ne.symm hc))]
      exact ih ((Latest.concat_of_not (P := fun c : GateCall => c.vector = vector) hc).mp h)

theorem mem_idtInitCalls {isr : UInt8 → UInt64} :
    call ∈ idtInitCalls isr ↔ (∃ v < 34, call = ⟨v.toUInt8, isr v.toUInt8, 0, 0⟩) ∨
    call = ⟨128, isr 128, 0, 3⟩ := by
  unfold idtInitCalls
  simp [eq_comm]

/-- **The table after `idt_init`.**  The first 34 vectors and 0x80 have their stubs, and
of these 0x80 alone may be called from ring 3; the other vectors are as they were. -/
theorem gate_idtInit (idt : Nat) (isr : UInt8 → UInt64) (s : Interrupts) (c : Nat)
    (vector : UInt8) :
    (idtInit idt isr s c).gate c vector = some
      (if vector < 34 then ⟨(isr vector).toNat, 0x08, 0, 0xE, 0, 0, 1⟩
      else if vector = 128 then ⟨(isr 128).toNat, 0x08, 0, 0xE, 0, 3, 1⟩
      else gateAt s.mem (entryAt idt vector)) := by
  have hlt : vector.toNat < 256 := vector.toNat_lt
  have hidtr : (idtInit idt isr s c).idtr c = ⟨256 * sizeofIdtEntry - 1, idt⟩ :=
    Function.update_self _ _ _
  have hmem : (idtInit idt isr s c).mem = idtSetGates idt s.mem (idtInitCalls isr) := rfl
  have hentry : idt + vector.toNat * 16 = entryAt idt vector := rfl
  have hlimit : vector.toNat * 16 + 15 ≤ 256 * sizeofIdtEntry - 1 := by
    unfold sizeofIdtEntry
    omega
  unfold Interrupts.gate
  simp only [hidtr, if_pos hlimit, hmem, hentry, Option.some.injEq]
  by_cases hlow : vector < 34
  · have hback : vector.toNat.toUInt8 = vector := by simp
    have hin : (⟨vector, isr vector, 0, 0⟩ : GateCall) ∈ idtInitCalls isr :=
      mem_idtInitCalls.mpr (Or.inl ⟨vector.toNat, UInt8.lt_iff_toNat_lt.mp hlow, by rw [hback]⟩)
    rw [if_pos hlow, gateAt_idtSetGates (Latest.of_unique hin rfl fun d hd hvector => ?_)]
    · rfl
    · rcases mem_idtInitCalls.mp hd with ⟨v, -, rfl⟩ | rfl
      · dsimp only at hvector
        rw [hvector]
      · dsimp only at hvector
        rw [← hvector] at hlow
        exact absurd hlow (by decide)
  · by_cases hcall : vector = 128
    · have hin : (⟨128, isr 128, 0, 3⟩ : GateCall) ∈ idtInitCalls isr :=
        mem_idtInitCalls.mpr (Or.inr rfl)
      rw [if_neg hlow, if_pos hcall,
        gateAt_idtSetGates (Latest.of_unique hin hcall.symm fun d hd hvector => ?_)]
      · rfl
      · rcases mem_idtInitCalls.mp hd with ⟨v, hv, rfl⟩ | rfl
        · rw [hcall] at hvector
          have hnat : v % 256 = 128 := congrArg UInt8.toNat hvector
          omega
        · rfl
    · rw [if_neg hlow, if_neg hcall, gateAt_idtSetGates_of_ne fun d hd hvector => ?_]
      rcases mem_idtInitCalls.mp hd with ⟨v, hv, rfl⟩ | rfl
      · refine hlow (UInt8.lt_iff_toNat_lt.mpr ?_)
        have hnat : v % 256 = vector.toNat := congrArg UInt8.toNat hvector
        show vector.toNat < 34
        omega
      · exact hcall hvector.symm

end Table

end NekaKernel.Idt
