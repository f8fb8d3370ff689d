/-
  Acpi/Madt.lean --- what the walks over the MADT find.

  Source: `acpi_find_cpus` and `acpi_find_apic_bases` in `acpi.c`, with the entry
  types they know.

  `Madt m madt lapic es` says that a well-formed MADT with the entries `es` is in
  memory: entries of all types, each at least as long as its type asks, fill the
  length that the header gives.  Over such a table the two walks compute what one
  would compute from the list.
-/
import NekaKernel.Acpi.Tables
import NekaKernel.Foundation.Records

set_option autoImplicit false

namespace NekaKernel.Acpi

open NekaKernel.Foundation NekaKernel.Kernel

/-! ## Well-formed tables -/

/-- An entry of the MADT: `madt_local_apic_entry_t`, `madt_ioapic_entry_t`, or an
entry of a type that the source skips. -/
inductive MadtEntry where
  | localApic (length apicId flags : Nat) (covers : 8 ≤ length)
  | ioApic (length ioApicAddress : Nat) (covers : 12 ≤ length)
  | other (type length : Nat) (unknown : type ≠ madtTypeLocalApic ∧ type ≠ madtTypeIoApic)
      (covers : 2 ≤ length)

namespace MadtEntry

/-- `header.length`. -/
def length : MadtEntry → Nat
  | .localApic length _ _ _ => length
  | .ioApic length _ _ => length
  | .other _ length _ _ => length

/-- `header.type`. -/
def type : MadtEntry → Nat
  | .localApic _ _ _ _ => madtTypeLocalApic
  | .ioApic _ _ _ => madtTypeIoApic
  | .other type _ _ _ => type

/-- The fields of the entry are in memory at `a`. -/
def Stands (m : Mem) (a : Nat) (e : MadtEntry) : Prop :=
  m.read a 1 = e.type ∧ m.read (a + 1) 1 = e.length ∧
    match e with
    | .localApic _ apicId flags _ => m.read (a + 3) 1 = apicId ∧ m.read (a + 4) 4 = flags
    | .ioApic _ ioApicAddress _ => m.read (a + 4) 4 = ioApicAddress
    | .other _ _ _ _ => True

/-- The APIC ID of a local APIC that is enabled. -/
def enabledId : MadtEntry → Option Nat
  | .localApic _ apicId flags _ => if flags.testBit 0 then some apicId else none
  | _ => none

/-- The address of an I/O APIC. -/
def ioApicAddress? : MadtEntry → Option Nat
  | .ioApic _ ioApicAddress _ => some ioApicAddress
  | _ => none

theorem length_pos (e : MadtEntry) : 0 < e.length := by
  cases e with
  | localApic _ _ _ covers => exact Nat.lt_of_lt_of_le (by decide) covers
  | ioApic _ _ covers => exact Nat.lt_of_lt_of_le (by decide) covers
  | other _ _ _ covers => exact Nat.lt_of_lt_of_le (by decide) covers

end MadtEntry

/-- A well-formed MADT is in memory, below `2 ^ 64` with the address behind it. -/
structure Madt (m : Mem) (madt lapic : Nat) (es : List MadtEntry) : Prop where
  localApicAddress : m.read (madt + 36) 4 = lapic
  headerLength : m.read (madt + 4) 4 = madtEntries + span MadtEntry.length es
  in_range : madt + m.read (madt + 4) 4 < 2 ^ 64
  entries : Laid MadtEntry.Stands MadtEntry.length m (madt + madtEntries) es

/-! ## One iteration -/

section Iteration

variable {m : Mem} {stop ptr fuel : Nat}

theorem ioApicLoop_end (h : ¬ ptr < stop) :
    ioApicLoop m stop (fuel + 1) ptr = pure (.ret 0) := by
  rw [ioApicLoop, if_neg h]

theorem ioApicLoop_value (h : ptr < stop) :
    (ioApicLoop m stop (fuel + 1) ptr).value =
      if m.read ptr 1 = madtTypeIoApic then .ret (m.read (ptr + 4) 4)
      else (ioApicLoop m stop fuel (add64 ptr (m.read (ptr + 1) 1))).value := by
  rw [ioApicLoop, if_pos h]
  exact Traced.bind_ite_value (load m ptr 1) (· = madtTypeIoApic) _ _

theorem newIds_value (m : Mem) (ptr type : Nat) : (newIds m ptr type).value =
    if type = madtTypeLocalApic ∧ (m.read (ptr + 4) 4).testBit 0 then [m.read (ptr + 3) 1]
    else [] := by
  unfold newIds
  by_cases htype : type = madtTypeLocalApic
  · simp only [htype, if_true, true_and]
    exact Traced.bind_ite_value (load m (ptr + 4) 4) (·.testBit 0 = true) _ _
  · simp only [htype, if_false, false_and]
    rfl

variable {maxCpus : Int} {found : List Nat}

theorem cpuLoop_end (h : ¬ (ptr < stop ∧ found.length < maxCpus)) :
    cpuLoop m stop maxCpus (fuel + 1) ptr found = pure (.ret found) := by
  rw [cpuLoop, if_neg h]

theorem cpuLoop_value (h : ptr < stop ∧ found.length < maxCpus) :
    (cpuLoop m stop maxCpus (fuel + 1) ptr found).value =
      (cpuLoop m stop maxCpus fuel (add64 ptr (m.read (ptr + 1) 1))
        (found ++ (newIds m ptr (m.read ptr 1)).value)).value := by
  rw [cpuLoop, if_pos h]
  rfl

end Iteration

/-! ## The walks over a well-formed table -/

section Walks

variable {m : Mem}

theorem newIds_stands {a : Nat} {e : MadtEntry} (h : e.Stands m a) :
    (newIds m a (m.read a 1)).value = e.enabledId.toList := by
  obtain ⟨htype, -, hfields⟩ := h
  rw [newIds_value, htype]
  cases e with
  | localApic length apicId flags covers =>
    obtain ⟨hid, hflags⟩ := hfields
    rw [hid, hflags]
    by_cases hen : flags.testBit 0 = true
    · simp [MadtEntry.type, MadtEntry.enabledId, hen]
    · simp [MadtEntry.type, MadtEntry.enabledId, hen]
  | ioApic length address covers => rfl
  | other type length unknown covers => simp [MadtEntry.type, MadtEntry.enabledId, unknown.1]

/-- The first I/O APIC of the list. -/
theorem ioApicLoop_laid : ∀ {es : List MadtEntry} {ptr fuel : Nat},
    Laid MadtEntry.Stands MadtEntry.length m ptr es → ptr + span MadtEntry.length es < 2 ^ 64 →
    es.length < fuel →
      (ioApicLoop m (ptr + span MadtEntry.length es) fuel ptr).value =
        .ret ((es.findSome? MadtEntry.ioApicAddress?).getD 0) := by
  intro es
  induction es with
  | nil =>
    intro ptr fuel _ _ hfuel
    obtain ⟨fuel, rfl⟩ : ∃ k, fuel = k + 1 := ⟨fuel - 1, by simp at hfuel; omega⟩
    rw [ioApicLoop_end (by simp)]
    rfl
  | cons e es ih =>
    intro ptr fuel hlaid hrange hfuel
    obtain ⟨fuel, rfl⟩ : ∃ k, fuel = k + 1 := ⟨fuel - 1, by simp at hfuel; omega⟩
    obtain ⟨⟨htype, hlength, hfields⟩, hrest⟩ := hlaid
    have hpos := e.length_pos
    rw [span_cons] at hrange ⊢
    have hnext : add64 ptr e.length = ptr + e.length := add64_of_lt (by omega)
    rw [ioApicLoop_value (by omega), htype, hlength, hnext, ← Nat.add_assoc]
    have hgo := ih hrest (by omega) (by simpa using hfuel)
    unfold MadtEntry.type
    cases e with
    | localApic length apicId flags covers =>
      rw [if_neg (show ¬ madtTypeLocalApic = madtTypeIoApic by decide), hgo]
      rfl
    | ioApic length address covers =>
      rw [if_pos (show madtTypeIoApic = madtTypeIoApic from rfl), hfields]
      rfl
    | other type length unknown covers =>
      rw [if_neg unknown.2, hgo]
      rfl

/-- The IDs of the enabled local APICs, as many as are asked for. -/
theorem cpuLoop_laid {maxCpus : Int} :
    ∀ {es : List MadtEntry} {ptr fuel : Nat} {found : List Nat},
    Laid MadtEntry.Stands MadtEntry.length m ptr es → ptr + span MadtEntry.length es < 2 ^ 64 →
    es.length < fuel →
      found.length ≤ maxCpus.toNat →
        (cpuLoop m (ptr + span MadtEntry.length es) maxCpus fuel ptr found).value =
          .ret ((found ++ es.filterMap MadtEntry.enabledId).take maxCpus.toNat) := by
  intro es
  induction es with
  | nil =>
    intro ptr fuel found _ _ hfuel hroom
    obtain ⟨fuel, rfl⟩ : ∃ k, fuel = k + 1 := ⟨fuel - 1, by simp at hfuel; omega⟩
    rw [cpuLoop_end (by simp), List.filterMap_nil, List.append_nil,
      List.take_of_length_le hroom]
    rfl
  | cons e es ih =>
    intro ptr fuel found hlaid hrange hfuel hroom
    obtain ⟨fuel, rfl⟩ : ∃ k, fuel = k + 1 := ⟨fuel - 1, by simp at hfuel; omega⟩
    obtain ⟨hstands, hrest⟩ := hlaid
    have hpos := e.length_pos
    rw [span_cons] at hrange ⊢
    have hnext : add64 ptr e.length = ptr + e.length := add64_of_lt (by omega)
    by_cases hmore : (found.length : Int) < maxCpus
    · rw [cpuLoop_value ⟨by omega, hmore⟩, hstands.2.1, hnext, newIds_stands hstands,
        ← Nat.add_assoc]
      have hlen : e.enabledId.toList.length ≤ 1 := by
        cases e.enabledId with
        | none => simp
        | some id => simp
      rw [ih hrest (by omega) (by simpa using hfuel) (by rw [List.length_append]; omega),
        List.append_assoc]
      cases hid : e.enabledId with
      | none => rw [List.filterMap_cons_none hid, Option.toList_none, List.nil_append]
      | some id => rw [List.filterMap_cons_some hid, Option.toList_some, List.singleton_append]
    · rw [cpuLoop_end (fun h => hmore h.2)]
      have hfull : found.length = maxCpus.toNat := by omega
      rw [← hfull, List.take_left']
      · rfl
      · rfl

end Walks

/-! ## The functions -/

section Functions

variable {m : Mem} {gRsdp madt : Nat}

theorem acpiFindCpus_value {maxCpus : Int} (hfind : (findMadt m gRsdp).value = some madt) :
    (acpiFindCpus m gRsdp maxCpus).value =
      (cpuLoop m (add64 madt (m.read (madt + 4) 4)) maxCpus loopFuel (madt + madtEntries)
        []).value := by
  unfold acpiFindCpus
  rw [Traced.bind_value, hfind]
  rfl

theorem acpiFindApicBases_value {ioapic : Nat} (hfind : (findMadt m gRsdp).value = some madt)
    (hloop : (ioApicLoop m (add64 madt (m.read (madt + 4) 4)) loopFuel
      (madt + madtEntries)).value = .ret ioapic) :
    (acpiFindApicBases m gRsdp).value =
      .ret ⟨ioapic != 0, some (m.read (madt + 36) 4, ioapic)⟩ := by
  unfold acpiFindApicBases
  rw [Traced.bind_value, hfind]
  simp only [Traced.bind_value, load_value]
  rw [hloop]
  rfl

end Functions

/-- The end of a well-formed table, and that the walks get there. -/
theorem Madt.bounds {m : Mem} {madt lapic : Nat} {es : List MadtEntry}
    (h : Madt m madt lapic es) :
    add64 madt (m.read (madt + 4) 4) = madt + madtEntries + span MadtEntry.length es ∧
      madt + madtEntries + span MadtEntry.length es < 2 ^ 64 ∧ es.length < loopFuel := by
  have hrange := h.in_range
  have hlength := h.headerLength
  have hcount : es.length ≤ span MadtEntry.length es := length_le_span fun e _ => e.length_pos
  refine ⟨?_, by omega, ?_⟩
  · rw [add64_of_lt hrange, hlength, Nat.add_assoc]
  · unfold loopFuel
    omega

/-- `acpi_find_cpus` over a well-formed table. -/
theorem Madt.findCpus {m : Mem} {gRsdp madt lapic : Nat} {es : List MadtEntry}
    (h : Madt m madt lapic es) (hfind : (findMadt m gRsdp).value = some madt) (maxCpus : Int) :
    (acpiFindCpus m gRsdp maxCpus).value =
      .ret ((es.filterMap MadtEntry.enabledId).take maxCpus.toNat) := by
  obtain ⟨hstop, hrange, hfuel⟩ := h.bounds
  rw [acpiFindCpus_value hfind, hstop, cpuLoop_laid h.entries (by omega) hfuel (by simp),
    List.nil_append]

/-- **The MADT is decoded exactly.**  From a well-formed MADT `acpi_find_cpus` takes
the first `maxCpus` IDs of the enabled local APICs in table order, and
`acpi_find_apic_bases` the address in the header and that of the first I/O APIC;
it succeeds exactly when there is one and its address is not zero. -/
theorem madt_decoding_exact {m : Mem} {gRsdp madt lapic : Nat} {es : List MadtEntry}
    (hfind : (findMadt m gRsdp).value = some madt) (h : Madt m madt lapic es) :
    (∀ maxCpus : Int, 0 ≤ maxCpus →
      (acpiFindCpus m gRsdp maxCpus).value =
        .ret ((es.filterMap MadtEntry.enabledId).take maxCpus.toNat)) ∧
    ∃ found, (acpiFindApicBases m gRsdp).value =
        .ret ⟨found, some (lapic, (es.findSome? MadtEntry.ioApicAddress?).getD 0)⟩ ∧
      (found = true ↔ ∃ address, es.findSome? MadtEntry.ioApicAddress? = some address ∧
        address ≠ 0) := by
  obtain ⟨hstop, hrange, hfuel⟩ := h.bounds
  refine ⟨fun maxCpus _ => h.findCpus hfind maxCpus,
    (es.findSome? MadtEntry.ioApicAddress?).getD 0 != 0, ?_, ?_⟩
  · rw [acpiFindApicBases_value hfind
      (by rw [hstop]; exact ioApicLoop_laid h.entries (by omega) hfuel), h.localApicAddress]
  · cases es.findSome? MadtEntry.ioApicAddress? with
    | none => simp
    | some address => simp

/-! ## Two processors -/

/-- A machine with two processors, 0 and `second`: the RSDP in the BIOS area, an RSDT
at `rsdt` with the MADT as its only table. -/
def twoProcessors (rsdt second : Nat) : Mem :=
  let m : Mem := fun _ => 0
  let m := (m.write 0xE0000 8 0x2052545020445352).write 0xE0010 4 rsdt
  let m := (m.write (rsdt + 4) 4 40).write (rsdt + 36) 4 0xF1000
  let m := ((m.write 0xF1000 4 0x43495041).write 0xF1004 4 82).write 0xF1024 4 0xFEE00000
  -- a local APIC, an entry of type 2, an I/O APIC and the second local APIC
  let m := ((m.write 0xF102C 2 0x0800).write 0xF102F 1 0).write 0xF1030 4 1
  let m := m.write 0xF1034 2 0x0A02
  let m := (m.write 0xF103E 2 0x0C01).write 0xF1042 4 0xFEC00000
  ((m.write 0xF104A 2 0x0800).write 0xF104D 1 second).write 0xF104E 4 1

def twoProcessorsEntries : List MadtEntry :=
  [.localApic 8 0 1 (by decide), .other 2 10 (by decide) (by decide),
    .ioApic 12 0xFEC00000 (by decide), .localApic 8 1 1 (by decide)]

theorem findMadt_twoProcessors :
    (findMadt (twoProcessors 0xF0000 1) 0xE0000).value = some 0xF1000 := by
  decide +kernel

theorem twoProcessors_madt :
    Madt (twoProcessors 0xF0000 1) 0xF1000 0xFEE00000 twoProcessorsEntries :=
  ⟨by decide +kernel, by decide +kernel, by decide +kernel,
    ⟨by decide +kernel, by decide +kernel, by decide +kernel, by decide +kernel⟩,
    ⟨by decide +kernel, by decide +kernel, trivial⟩,
    ⟨by decide +kernel, by decide +kernel, by decide +kernel⟩,
    ⟨by decide +kernel, by decide +kernel, by decide +kernel, by decide +kernel⟩, trivial⟩

theorem madt_decoding_exact_two :
    (findMadt (twoProcessors 0xF0000 1) 0xE0000).value = some 0xF1000 ∧
    (acpiFindCpus (twoProcessors 0xF0000 1) 0xE0000 8).value = .ret [0, 1] ∧
    (acpiFindApicBases (twoProcessors 0xF0000 1) 0xE0000).value =
      .ret ⟨true, some (0xFEE00000, 0xFEC00000)⟩ := by
  obtain ⟨hcpus, found, hbases, hfound⟩ :=
    madt_decoding_exact findMadt_twoProcessors twoProcessors_madt
  refine ⟨findMadt_twoProcessors, hcpus 8 (by decide), ?_⟩
  rw [hbases, hfound.mpr ⟨0xFEC00000, rfl, by decide⟩]
  rfl

end NekaKernel.Acpi
