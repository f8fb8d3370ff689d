/-
  Apic/Registers.lean --- where the registers of the interrupt controllers are accessed.

  Source: `apic.c`, and `smp_start_aps` and `send_init_sipi_sipi` with their own
  `LAPIC_REG` in `smp.c`.

  An access is recorded with the address it goes to, and with whether the kernel's
  tables map its four bytes at that moment.  It changes no memory; what a load finds
  is up to the device, a function of the accesses before it.  Model-specific
  registers, ports, delays and the PIT, which times the calibration, are left out.
-/
import NekaKernel.Acpi.Madt
import NekaKernel.Foundation.Run
import NekaKernel.Paging.KernelMap
import NekaKernel.Smp.Bringup

set_option autoImplicit false

namespace NekaKernel.Apic

open NekaKernel.Foundation NekaKernel.Kernel NekaKernel.Paging NekaKernel.Acpi

/-! ## Accesses -/

/-- Whose registers. -/
inductive Chip where
  | lapic
  | ioapic
  deriving DecidableEq, Repr

/-- One access to a register: a store of a value, or a load. -/
structure Access where
  chip : Chip
  offset : Nat
  addr : Nat
  written : Option Nat
  mapped : Bool
  deriving DecidableEq, Repr

/-- The values of loads, by the accesses before, the latest first, and the address. -/
abbrev Device : Type := List Access → Nat → Nat

/-- The statics of `apic.c`, the IDs the loop of `smp_start_aps` has yet to start, the
kernel's tables, and the accesses so far, the latest first. -/
structure ApicState where
  lapicBasePa : Nat
  ioapicBasePa : Nat
  toStart : List Nat
  world : World
  accesses : List Access

abbrev ApicM : Type → Type := StateT ApicState Option

/-- The kernel's tables map the four bytes at `a`. -/
def mapsWord (w : World) (a : Nat) : Bool :=
  (List.range 4).all fun k => (translateVa w.page.mem w.page.kernelPml4 (a + k)).isSome

/-- The access is made. -/
def access (chip : Chip) (offset addr : Nat) (written : Option Nat) : ApicM Unit := fun s =>
  let made : Access := ⟨chip, offset, addr, written, mapsWord s.world addr⟩
  some ((), { s with accesses := made :: s.accesses })

/-- A call into `paging64.c`. -/
def callPaging (op : Op) : ApicM Unit := fun s =>
  (s.world.step op).map fun w => ((), { s with world := w })

/-! ## `apic.c` -/

/-- The default of `lapic_base_pa`. -/
def lapicDefault : Nat := 0xFEE00000

/-- The default of `ioapic_base_pa`. -/
def ioapicDefault : Nat := 0xFEC00000

def lapicId : Nat := 0x20
def lapicEoi : Nat := 0xB0
def lapicSpurious : Nat := 0xF0
def lapicLvtTimer : Nat := 0x320
def lapicTimerInit : Nat := 0x380
def lapicTimerCur : Nat := 0x390
def lapicTimerDiv : Nat := 0x3E0

/-- `apic_apply_acpi_bases`. -/
def apicApplyAcpiBases (m : Mem) (gRsdp : Nat) (s : ApicState) : Exit ApicState :=
  match (acpiFindApicBases m gRsdp).value with
  | .ret ⟨true, some (lapicPa, ioapicPa)⟩ =>
      .ret { s with lapicBasePa := lapicPa, ioapicBasePa := ioapicPa }
  | .ret _ => .ret s
  | _ => .hang

/-- `LAPIC_REG(offset) = value`. -/
def setLapicReg (offset value : Nat) : ApicM Unit := do
  let s ← get
  access .lapic offset (s.lapicBasePa + offset) (some value)

/-- `LAPIC_REG(offset)` as a value. -/
def lapicReg (device : Device) (offset : Nat) : ApicM Nat := do
  let s ← get
  access .lapic offset (s.lapicBasePa + offset) none
  return device s.accesses (s.lapicBasePa + offset) % 2 ^ 32

/-- `lapic_get_id`. -/
def lapicGetId (device : Device) : ApicM Nat := do
  let id ← lapicReg device lapicId
  return (id >>> 24) % 256

/-- `lapic_enable`. -/
def lapicEnable : ApicM Unit := do
  let s ← get
  callPaging (.pagingMapMmio2mb s.lapicBasePa)
  setLapicReg lapicSpurious 0x1FF

/-- `lapic_send_eoi`. -/
def lapicSendEoi : ApicM Unit := setLapicReg lapicEoi 0

/-- `lapic_calibrate_ticks`. -/
def lapicCalibrateTicks (device : Device) : ApicM Nat := do
  setLapicReg lapicTimerDiv 0x3
  setLapicReg lapicTimerInit 0xFFFFFFFF
  let remaining ← lapicReg device lapicTimerCur
  return 0xFFFFFFFF - remaining

/-- `apic_timer_init`. -/
def apicTimerInit (device : Device) (vector : Nat) : ApicM Unit := do
  let ticks ← lapicCalibrateTicks device
  setLapicReg lapicLvtTimer (vector ||| 1 <<< 17)
  setLapicReg lapicTimerDiv 0x3
  setLapicReg lapicTimerInit ticks

/-- `ioapic_write`. -/
def ioapicWrite (reg val : Nat) : ApicM Unit := do
  let s ← get
  callPaging (.pagingMapMmio2mb s.ioapicBasePa)
  access .ioapic 0x00 (s.ioapicBasePa + 0x00) (some reg)
  access .ioapic 0x10 (s.ioapicBasePa + 0x10) (some val)

/-- `ioapic_set_redirect`; the register number is a `uint8_t`. -/
def ioapicSetRedirect (device : Device) (irq vector : Nat) : ApicM Unit := do
  let id ← lapicGetId device
  ioapicWrite ((0x10 + irq * 2) % 256) vector
  ioapicWrite ((0x10 + irq * 2 + 1) % 256) (id <<< 24)

/-! ## `smp.c` -/

def lapicIcrLow : Nat := 0x300
def lapicIcrHigh : Nat := 0x310

/-- `LAPIC_REG(offset) = value` as `smp.c` defines it: over a constant. -/
def setSmpLapicReg (offset value : Nat) : ApicM Unit :=
  access .lapic offset (0xFEE00000 + offset) (some value)

/-- `send_init_sipi_sipi`. -/
def sendInitSipiSipi (apicId : Nat) : ApicM Unit := do
  let vector := 0x8000 >>> 12
  setSmpLapicReg lapicIcrHigh (apicId <<< 24)
  setSmpLapicReg lapicIcrLow 0x4500
  setSmpLapicReg lapicIcrHigh (apicId <<< 24)
  setSmpLapicReg lapicIcrLow (0x4600 ||| vector)
  setSmpLapicReg lapicIcrHigh (apicId <<< 24)
  setSmpLapicReg lapicIcrLow (0x4600 ||| vector)

/-- The IDs that the loop of `smp_start_aps` starts.  The list of `acpi_find_cpus` has at
most `MAX_AP_CPUS` of them, so `started` does not end the loop. -/
def apsToStart (m : Mem) (gRsdp bspId : Nat) : List Nat :=
  match (acpiFindCpus m gRsdp Smp.maxApCpus).value with
  | .ret apicIds => if apicIds.length ≤ 1 then [] else apicIds.filter (· != bspId)
  | _ => []

/-- `smp_start_aps` up to its loop. -/
def smpStartAps (m : Mem) (gRsdp : Nat) (device : Device) : ApicM Unit :=
  match (acpiFindCpus m gRsdp Smp.maxApCpus).value with
  | .ret apicIds =>
      if apicIds.length ≤ 1 then return ()
      else do
        let bspId ← lapicGetId device
        modify fun s => { s with toStart := apicIds.filter (· != bspId) }
  | _ => failure

/-- The next turn of the loop that starts a processor. -/
def startNextAp : ApicM Unit := do
  let s ← get
  match s.toStart with
  | [] => failure
  | apicId :: rest => do
      set { s with toStart := rest }
      sendInitSipiSipi apicId

/-! ## The system -/

/-- What the processors call once the local APIC is enabled, and the calls of the rest
of the boot that make page tables. -/
inductive Call where
  | lapicEnable
  | lapicGetId
  | lapicSendEoi
  | apicTimerInit (vector : Nat)
  | ioapicSetRedirect (irq vector : Nat)
  | smpStartAps
  | startNextAp
  | createAddressSpace
  | createUserProcess
  deriving DecidableEq, Repr

section System

variable (m : Mem) (gRsdp : Nat) (device : Device)

def Call.run : Call → ApicM Unit
  | .lapicEnable => Apic.lapicEnable
  | .lapicGetId => do
      let _ ← Apic.lapicGetId device
  | .lapicSendEoi => Apic.lapicSendEoi
  | .apicTimerInit vector => Apic.apicTimerInit device vector
  | .ioapicSetRedirect irq vector => Apic.ioapicSetRedirect device irq vector
  | .smpStartAps => Apic.smpStartAps m gRsdp device
  | .startNextAp => Apic.startNextAp
  | .createAddressSpace => callPaging .createAddressSpace
  | .createUserProcess => callPaging .createUserProcess

/-- One call; `none` is a panic, a search of the tables without end, or a turn of the
loop of `smp_start_aps` that does not come. -/
def ApicState.step (s : ApicState) (call : Call) : Option ApicState :=
  (call.run m gRsdp device s).map Prod.snd

/-- `kernel_main64` has found the bases and enabled the local APIC. -/
def Enabled (s : ApicState) : Prop :=
  ∃ w₀ s₀, Booted w₀ ∧
    apicApplyAcpiBases m gRsdp ⟨lapicDefault, ioapicDefault, [], w₀, []⟩ = .ret s₀ ∧
    s₀.step m gRsdp device .lapicEnable = some s

end System

/-- The ID `lapic_get_id` would find. -/
def idFound (device : Device) (s : ApicState) : Nat :=
  (device s.accesses (s.lapicBasePa + lapicId) % 2 ^ 32) >>> 24 % 256

/-- Every access to the local APIC went to `base` plus the register's offset, into a
mapped page. -/
def Served (base : Nat) (s : ApicState) : Prop :=
  ∀ a ∈ s.accesses, a.chip = .lapic → a.addr = base + a.offset ∧ a.mapped = true

end NekaKernel.Apic
