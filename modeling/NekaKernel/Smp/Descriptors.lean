/-
  Smp/Descriptors.lean --- the GDT, the task-state segments and the task registers.

  Source: `gdt64.c`, with `get_cpu_index` of `apic.c`.

  All processors use one GDT.  It has two words for the TSS of each slot, and the
  task register of a processor holds the selector it last executed `ltr` on.  Of a
  TSS only `rsp0` is kept; the other fields are zero or constant.
-/
import NekaKernel.Context.Machine

set_option autoImplicit false

namespace NekaKernel.Smp

open NekaKernel.Foundation NekaKernel.Kernel NekaKernel.Context

/-! ## Slots -/

/-- `MAX_TRACKED_CPUS`. -/
def maxTrackedCpus : Nat := 16

/-- `get_cpu_index` on the processor whose `lapic_get_id` is `apicId`. -/
def getCpuIndex (apicId : Nat) : Nat := if apicId < maxTrackedCpus then apicId else 0

/-- `sizeof(tss64_t)`. -/
def sizeofTss64 : Nat := 104

/-- `SEL_TSS_BASE`. -/
def selTssBase : Nat := 0x28

/-- Where the linker put `tss[]`, besides the kernel stacks. -/
structure TssLayout extends Context.Layout where
  tss : Nat
  tss_range : tss + maxTssCpus * sizeofTss64 < 2 ^ 64

/-- `&tss[k]`. -/
def TssLayout.tssAt (L : TssLayout) (k : Nat) : Nat := L.tss + k * sizeofTss64

/-! ## Descriptors -/

/-- `gdt[slot]` for a TSS at `base`. -/
def tssDescriptorLow (base : Nat) : Nat :=
  let limit := sizeofTss64 - 1
  (limit &&& 0xFFFF) ||| ((base &&& 0xFFFFFF) <<< 16) ||| (0x89 <<< 40) |||
    (((limit >>> 16) &&& 0xF) <<< 48) ||| (((base >>> 24) &&& 0xFF) <<< 56)

/-- `gdt[slot + 1]` for a TSS at `base`. -/
def tssDescriptorHigh (base : Nat) : Nat := (base >>> 32) &&& 0xFFFFFFFF

/-- The busy bit, which `ltr` sets in the descriptor. -/
def busyBit : Nat := 1 <<< 41

/-- The base address the processor finds in a descriptor. -/
def descriptorBase (low high : Nat) : Nat :=
  low / 2 ^ 16 % 2 ^ 24 + low / 2 ^ 56 % 2 ^ 8 * 2 ^ 24 + high % 2 ^ 32 * 2 ^ 32

/-- `gdt[]`, the `rsp0` fields of `tss[]`, and the task register of each processor,
which holds nothing before the first `ltr`. -/
structure Descriptors where
  gdt : Nat → Nat
  rsp0 : Nat → UInt64
  tr : Nat → Option Nat

/-- `ltr sel` on processor `c`. -/
def ltr (d : Descriptors) (c sel : Nat) : Descriptors :=
  { d with
    gdt := Function.update d.gdt (sel / 8) (d.gdt (sel / 8) ||| busyBit)
    tr := Function.update d.tr c (some sel) }

/-- `gdt_setup_cpu_tss` on processor `c`. -/
def gdtSetupCpuTss (L : TssLayout) (d : Descriptors) (c : Nat) (cpuIdx : Int) : Descriptors :=
  if cpuIdx < 0 ∨ cpuIdx ≥ maxTssCpus then d
  else
    let base := L.tssAt cpuIdx.toNat
    let slot := 5 + cpuIdx.toNat * 2
    let gdt := Function.update d.gdt slot (tssDescriptorLow base)
    let gdt := Function.update gdt (slot + 1) (tssDescriptorHigh base)
    ltr { d with gdt := gdt, rsp0 := Context.gdtSetupCpuTss L.toLayout d.rsp0 cpuIdx } c
      (selTssBase + cpuIdx.toNat * 0x10)

/-- What `gdt_setup_cpu_tss` does to `gdt[]`, where `&tss[cpu_idx]` is `base`. -/
def setupTssDescriptor (gdt : Nat → Nat) (cpuIdx : Int) (base : Nat) : Nat → Nat :=
  if cpuIdx < 0 ∨ cpuIdx ≥ maxTssCpus then gdt
  else
    let slot := 5 + cpuIdx.toNat * 2
    let gdt := Function.update gdt slot (tssDescriptorLow base)
    let gdt := Function.update gdt (slot + 1) (tssDescriptorHigh base)
    -- `ltr`
    let sel := selTssBase + cpuIdx.toNat * 0x10
    Function.update gdt (sel / 8) (gdt (sel / 8) ||| busyBit)

/-- The segments of `gdt_init`: null, kernel and user code and data. -/
def segmentDescriptors : List Nat :=
  let kcode := 1 <<< 43 ||| 1 <<< 44 ||| 1 <<< 47 ||| 1 <<< 53
  let kdata := 1 <<< 44 ||| 1 <<< 47 ||| 1 <<< 41
  [0, kcode, kdata, kcode ||| 3 <<< 45, kdata ||| 3 <<< 45]

/-- `gdt_init` on the BSP, with slot 0 for its TSS. -/
def gdtInit (L : TssLayout) (d : Descriptors) (bsp : Nat) : Descriptors :=
  gdtSetupCpuTss L { d with gdt := fun i => segmentDescriptors.getD i (d.gdt i) } bsp 0

/-! ## What a processor has -/

/-- Slot `k` of the tables is set up: its descriptor, which some processor has
loaded, is that of `tss[k]`, and the stack in it is `kstack0[k]`. -/
structure SlotReady (L : TssLayout) (d : Descriptors) (k : Nat) : Prop where
  descriptor : descriptorBase (d.gdt (5 + k * 2)) (d.gdt (5 + k * 2 + 1)) = L.tssAt k
  stack : d.rsp0 k = UInt64.ofNat (L.kstackTop k)

section Descriptor

theorem or_shift {a b n : Nat} (ha : a < 2 ^ n) : a ||| b <<< n = a + b * 2 ^ n := by
  rw [Nat.or_comm, ← Nat.shiftLeft_add_eq_or_of_lt ha, Nat.shiftLeft_eq, Nat.add_comm]

/-- The fields of the low word do not overlap. -/
theorem tssDescriptorLow_busy (base : Nat) :
    tssDescriptorLow base ||| busyBit =
      103 + base % 2 ^ 24 * 2 ^ 16 + 0x8B * 2 ^ 40 + base / 2 ^ 24 % 2 ^ 8 * 2 ^ 56 := by
  have hlow : base &&& 0xFFFFFF = base % 2 ^ 24 := Nat.and_two_pow_sub_one_eq_mod base 24
  have hhigh : (base >>> 24) &&& 0xFF = base / 2 ^ 24 % 2 ^ 8 := by
    rw [Nat.shiftRight_eq_div_pow]
    exact Nat.and_two_pow_sub_one_eq_mod _ 8
  have hlimit : (sizeofTss64 - 1) &&& 0xFFFF = 103 := by decide
  have hnibble : (((sizeofTss64 - 1) >>> 16) &&& 0xF) <<< 48 = 0 := by decide
  have hbusy : 0x89 <<< 40 ||| busyBit = 0x8B <<< 40 := by decide
  have hswap : ∀ a b c : Nat, a ||| b ||| c = a ||| c ||| b := by
    intro a b c
    rw [Nat.or_assoc, Nat.or_comm b c, ← Nat.or_assoc]
  unfold tssDescriptorLow
  dsimp only
  rw [hlow, hhigh, hlimit, hnibble, Nat.or_zero, hswap _ _ busyBit,
    Nat.or_assoc (103 ||| _) _ busyBit, hbusy,
    or_shift (show 103 < 2 ^ 16 by decide),
      or_shift (show 103 + base % 2 ^ 24 * 2 ^ 16 < 2 ^ 40 by omega),
    or_shift (show 103 + base % 2 ^ 24 * 2 ^ 16 + 0x8B * 2 ^ 40 < 2 ^ 56 by omega)]

/-- A loaded descriptor gives the address back. -/
theorem descriptorBase_tssDescriptor {base : Nat} (h : base < 2 ^ 64) :
    descriptorBase (tssDescriptorLow base ||| busyBit) (tssDescriptorHigh base) = base := by
  have hhigh : tssDescriptorHigh base = base / 2 ^ 32 % 2 ^ 32 := by
    unfold tssDescriptorHigh
    rw [Nat.shiftRight_eq_div_pow]
    exact Nat.and_two_pow_sub_one_eq_mod _ 32
  unfold descriptorBase
  rw [tssDescriptorLow_busy, hhigh]
  omega

end Descriptor

section Setup

variable {L : TssLayout} {d : Descriptors} {gdt : Nat → Nat} {cpuIdx : Int}
    {base slot c k l : Nat}

theorem selector_slot (k : Nat) : (selTssBase + k * 0x10) / 8 = 5 + k * 2 := by
  unfold selTssBase
  omega

theorem selector_inj {k l : Nat} (h : selTssBase + k * 0x10 = selTssBase + l * 0x10) :
    k = l := by omega

theorem TssLayout.tssAt_lt (L : TssLayout) (hk : k < maxTssCpus) : L.tssAt k < 2 ^ 64 := by
  have hrange := L.tss_range
  unfold TssLayout.tssAt sizeofTss64 maxTssCpus at *
  omega

/-- An index without a slot. -/
theorem setupTssDescriptor_out (h : cpuIdx < 0 ∨ cpuIdx ≥ maxTssCpus) :
    setupTssDescriptor gdt cpuIdx base = gdt := by
  unfold setupTssDescriptor
  rw [if_pos h]

/-- The words of a slot that was set up. -/
theorem setupTssDescriptor_words (gdt : Nat → Nat) (base : Nat) (hk : k < maxTssCpus) :
    setupTssDescriptor gdt k base (5 + k * 2) = tssDescriptorLow base ||| busyBit ∧
      setupTssDescriptor gdt k base (5 + k * 2 + 1) = tssDescriptorHigh base := by
  have hnext : 5 + k * 2 ≠ 5 + k * 2 + 1 := by omega
  unfold setupTssDescriptor
  rw [if_neg (by omega)]
  simp only [Int.toNat_natCast, selector_slot, Function.update_self,
    Function.update_of_ne hnext, Function.update_of_ne hnext.symm, and_self]

/-- **Any other word** stays as it is. -/
theorem setupTssDescriptor_frame
    (h : ¬ (0 ≤ cpuIdx ∧ cpuIdx < maxTssCpus ∧
      (slot = 5 + cpuIdx.toNat * 2 ∨ slot = 5 + cpuIdx.toNat * 2 + 1))) :
    setupTssDescriptor gdt cpuIdx base slot = gdt slot := by
  by_cases hout : cpuIdx < 0 ∨ cpuIdx ≥ maxTssCpus
  · rw [setupTssDescriptor_out hout]
  · have hlow : slot ≠ 5 + cpuIdx.toNat * 2 := fun heq => h ⟨by omega, by omega, Or.inl heq⟩
    have hhigh : slot ≠ 5 + cpuIdx.toNat * 2 + 1 :=
      fun heq => h ⟨by omega, by omega, Or.inr heq⟩
    unfold setupTssDescriptor
    rw [if_neg hout]
    simp only [selector_slot]
    rw [Function.update_of_ne hlow, Function.update_of_ne hhigh, Function.update_of_ne hlow]

/-- An index without a slot. -/
theorem gdtSetupCpuTss_out (hk : maxTssCpus ≤ k) : gdtSetupCpuTss L d c k = d := by
  unfold gdtSetupCpuTss
  rw [if_pos (Or.inr (by exact_mod_cast hk))]

theorem gdtSetupCpuTss_gdt (L : TssLayout) (d : Descriptors) (c : Nat) (cpuIdx : Int) :
    (gdtSetupCpuTss L d c cpuIdx).gdt = setupTssDescriptor d.gdt cpuIdx
      (L.tssAt cpuIdx.toNat) := by
  unfold gdtSetupCpuTss setupTssDescriptor
  split
  · rfl
  · rfl

theorem gdtSetupCpuTss_rsp0 (hk : k < maxTssCpus) :
    (gdtSetupCpuTss L d c k).rsp0 =
      Function.update d.rsp0 k (UInt64.ofNat (L.kstackTop k)) := by
  unfold gdtSetupCpuTss Context.gdtSetupCpuTss
  rw [if_neg (by omega)]
  dsimp only [ltr]
  rw [if_neg (by omega), Int.toNat_natCast]

theorem gdtSetupCpuTss_tr (hk : k < maxTssCpus) :
    (gdtSetupCpuTss L d c k).tr = Function.update d.tr c (some (selTssBase + k * 0x10)) := by
  unfold gdtSetupCpuTss
  rw [if_neg (by omega)]
  rfl

/-- The slot that was asked for is set up. -/
theorem gdtSetupCpuTss_ready (hk : k < maxTssCpus) :
    SlotReady L (gdtSetupCpuTss L d c k) k := by
  constructor
  · obtain ⟨hlow, hhigh⟩ := setupTssDescriptor_words d.gdt (L.tssAt k) hk
    rw [gdtSetupCpuTss_gdt, Int.toNat_natCast, hlow, hhigh]
    exact descriptorBase_tssDescriptor (L.tssAt_lt hk)
  · rw [gdtSetupCpuTss_rsp0 hk, Function.update_self]

/-- The other slots stay as they are. -/
theorem SlotReady.setup (h : SlotReady L d l) : SlotReady L (gdtSetupCpuTss L d c k) l := by
  by_cases hk : k < maxTssCpus
  · by_cases hl : l = k
    · rw [hl]
      exact gdtSetupCpuTss_ready hk
    · constructor
      · rw [gdtSetupCpuTss_gdt, setupTssDescriptor_frame (by omega),
          setupTssDescriptor_frame (by omega)]
        exact h.descriptor
      · rw [gdtSetupCpuTss_rsp0 hk, Function.update_of_ne hl]
        exact h.stack
  · rw [gdtSetupCpuTss_out (by omega)]
    exact h

end Setup

end NekaKernel.Smp
