/-
  Acpi/Tables.lean --- the search for processors and interrupt controllers in the
  firmware's tables.

  Source: `acpi.c`.

  The tables are read where the firmware left them, through pointers it stored in
  them; every load is recorded.  Field offsets are those of the packed structures
  of the source.  A loop over the entries of the MADT goes on by the length byte of
  each entry, so it is given fuel and is `hang` when that is used up.  What the
  functions print is not part of the model.
-/
import NekaKernel.Foundation.Steps
import NekaKernel.Foundation.Trace
import NekaKernel.Kernel.Basic

set_option autoImplicit false

namespace NekaKernel.Acpi

open NekaKernel.Foundation NekaKernel.Kernel

/-! ## The root pointer -/

/-- `"RSD PTR "`. -/
def rsdpSignature : List Nat := [0x52, 0x53, 0x44, 0x20, 0x50, 0x54, 0x52, 0x20]

/-- `sum` of `checksum_ok` after `n` more bytes from `a` on. -/
def checksum (m : Mem) : Nat → Nat → Nat → Traced Nat
  | 0, _, sum => pure sum
  | n + 1, a, sum => do
      let b ← load m a 1
      checksum m n (a + 1) ((sum + b) % 256)

/-- `checksum_ok`. -/
def checksumOk (m : Mem) (a len : Nat) : Traced Bool := do
  let sum ← checksum m len a 0
  return sum == 0

/-- The loop of `scan_for_rsdp` over the addresses it tries; 0 is `NULL`. -/
def scanAt (m : Mem) : List Nat → Traced Nat
  | [] => pure 0
  | addr :: rest => do
      if (← startsWith m addr rsdpSignature) then
        if (← checksumOk m addr 20) then return addr
        else scanAt m rest
      else scanAt m rest

/-- `scan_for_rsdp`. -/
def scanForRsdp (m : Mem) (start stop : Nat) : Traced Nat := scanAt m (steps 16 start stop)

/-- The search in the first kilobyte of the EBDA, if there is one. -/
def scanEbda (m : Mem) (ebdaAddr : Nat) : Traced Nat :=
  if ebdaAddr ≠ 0 then scanForRsdp m ebdaAddr (ebdaAddr + 1024) else return 0

/-- `acpi_find_rsdp_bios`: the new value of `g_rsdp`. -/
def acpiFindRsdpBios (m : Mem) (gRsdp : Nat) : Traced Nat :=
  if gRsdp ≠ 0 then return gRsdp
  else do
    let ebdaSeg ← load m 0x40E 2
    let found ← scanEbda m (ebdaSeg <<< 4)
    if found ≠ 0 then return found else scanForRsdp m 0xE0000 0x100000

/-! ## The root table -/

/-- `sizeof(sdt_header_t)`. -/
def sizeofSdtHeader : Nat := 36

/-- `"APIC"`, the signature of the MADT. -/
def madtSignature : List Nat := [0x41, 0x50, 0x49, 0x43]

/-- `(length - sizeof(sdt_header_t)) / width`, computed in `size_t` and stored into
a `uint32_t`. -/
def entryCount (length width : Nat) : Nat := sub64 length sizeofSdtHeader / width % 2 ^ 32

/-- A returned pointer, `none` being `NULL`: the callers test for it. -/
def nonNull (t : Nat) : Option Nat := if t = 0 then none else some t

/-- The loop of `find_madt` from entry `i` on, over `width` bytes for each pointer. -/
def scanTables (m : Mem) (tables width : Nat) : Nat → Nat → Traced (Option Nat)
  | 0, _ => pure none
  | left + 1, i => do
      let t ← load m (tables + width * i) width
      if (← startsWith m t madtSignature) then return nonNull t
      else scanTables m tables width left (i + 1)

/-- A branch of `find_madt`: the table at `root` with pointers of `width` bytes. -/
def scanRoot (m : Mem) (root width : Nat) : Traced (Option Nat) := do
  let length ← load m (root + 4) 4
  scanTables m (root + sizeofSdtHeader) width (entryCount length width) 0

/-- `g_rsdp->xsdt_address` where the revision has it; 0 stands for a table that is
not used. -/
def xsdtAddress (m : Mem) (gRsdp revision : Nat) : Traced Nat :=
  if 2 ≤ revision then load m (gRsdp + 24) 8 else return 0

/-- `find_madt`. -/
def findMadt (m : Mem) (gRsdp : Nat) : Traced (Option Nat) :=
  if gRsdp = 0 then return none
  else do
    let revision ← load m (gRsdp + 15) 1
    let xsdt ← xsdtAddress m gRsdp revision
    if xsdt ≠ 0 then scanRoot m xsdt 8
    else
      let rsdt ← load m (gRsdp + 16) 4
      scanRoot m rsdt 4

/-! ## The MADT -/

/-- `MADT_TYPE_LOCAL_APIC`. -/
def madtTypeLocalApic : Nat := 0

/-- `MADT_TYPE_IO_APIC`. -/
def madtTypeIoApic : Nat := 1

/-- The offset of `entries` in `madt_t`. -/
def madtEntries : Nat := 44

/-- The loop of `acpi_find_apic_bases`: `*ioapic_pa_out` behind it. -/
def ioApicLoop (m : Mem) (stop : Nat) : Nat → Nat → Traced (Exit Nat)
  | 0, _ => pure .hang
  | fuel + 1, ptr =>
      if ptr < stop then do
        let type ← load m ptr 1
        if type = madtTypeIoApic then
          let ioApicAddress ← load m (ptr + 4) 4
          return .ret ioApicAddress
        else
          let length ← load m (ptr + 1) 1
          ioApicLoop m stop fuel (add64 ptr length)
      else return .ret 0

/-- What `acpi_find_apic_bases` returns, and what it stores through its pointers if
it comes that far. -/
structure ApicBases where
  found : Bool
  stored : Option (Nat × Nat)
  deriving DecidableEq, Repr

/-- `acpi_find_apic_bases`. -/
def acpiFindApicBases (m : Mem) (gRsdp : Nat) : Traced (Exit ApicBases) := do
  match ← findMadt m gRsdp with
  | none => return .ret ⟨false, none⟩
  | some madt =>
      let lapicPa ← load m (madt + 36) 4
      let length ← load m (madt + 4) 4
      match ← ioApicLoop m (add64 madt length) loopFuel (madt + madtEntries) with
      | .ret ioapicPa => return .ret ⟨ioapicPa != 0, some (lapicPa, ioapicPa)⟩
      | _ => return .hang

/-- What the entry at `ptr` adds to `apic_ids_out[]`: the ID of a local APIC that is
enabled. -/
def newIds (m : Mem) (ptr type : Nat) : Traced (List Nat) :=
  if type = madtTypeLocalApic then do
    let flags ← load m (ptr + 4) 4
    if flags.testBit 0 then
      let apicId ← load m (ptr + 3) 1
      return [apicId]
    else return []
  else return []

/-- The loop of `acpi_find_cpus`; `found` is `apic_ids_out[]` so far. -/
def cpuLoop (m : Mem) (stop : Nat) (maxCpus : Int) :
    Nat → Nat → List Nat → Traced (Exit (List Nat))
  | 0, _, _ => pure .hang
  | fuel + 1, ptr, found =>
      if ptr < stop ∧ found.length < maxCpus then do
        let type ← load m ptr 1
        let new ← newIds m ptr type
        let length ← load m (ptr + 1) 1
        cpuLoop m stop maxCpus fuel (add64 ptr length) (found ++ new)
      else return .ret found

/-- `acpi_find_cpus`: the IDs it stores; it returns how many. -/
def acpiFindCpus (m : Mem) (gRsdp : Nat) (maxCpus : Int) : Traced (Exit (List Nat)) := do
  match ← findMadt m gRsdp with
  | none => return .ret []
  | some madt =>
      let length ← load m (madt + 4) 4
      cpuLoop m (add64 madt length) maxCpus loopFuel (madt + madtEntries) []

end NekaKernel.Acpi
