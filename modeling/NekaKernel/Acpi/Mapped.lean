/-
  Acpi/Mapped.lean --- the firmware's tables under the kernel's page tables.

  Source: the calls of `acpi_find_apic_bases` and `acpi_find_cpus` on the way through
  `kernel_main64` in `main64.c`.

  Nothing maps the tables before they are read.  The first search runs under the
  identity map of the first gigabyte alone; the second behind the mappings of the
  APICs and the creation of the threads' address spaces.
-/
import NekaKernel.Acpi.Fields
import NekaKernel.Paging.KernelMap
import NekaKernel.Smp.Bringup

set_option autoImplicit false

namespace NekaKernel.Acpi

open NekaKernel.Foundation NekaKernel.Kernel NekaKernel.Paging

/-- Every byte of the `n` bytes at `x` is mapped by the kernel's tables. -/
def Mapped (w : World) (x n : Nat) : Prop :=
  ∀ y, x ≤ y → y < x + n → (translateVa w.page.mem w.page.kernelPml4 y).isSome = true

/-- All loads of a computation are. -/
def AllMapped {α : Type} (w : World) (t : Traced α) : Prop :=
  ∀ x n, (x, n) ∈ t.reads → Mapped w x n

section Reads

variable {w₀ w : World} {pas : List Nat} {calls : List Op} {m : Mem} {gRsdp : Nat}

/-- The loads of a search are mapped if and only if the fields are. -/
theorem allMapped_iff {α : Type} {t : Traced α} {field : Nat → Nat → Prop}
    (hreads : ∀ x n, (x, n) ∈ t.reads ↔ gRsdp ≠ 0 ∧ field x n) :
    AllMapped w t ↔ (gRsdp ≠ 0 → ∀ x n, field x n → Mapped w x n) := by
  constructor
  · intro h hrsdp x n hfield
    exact h x n ((hreads x n).mpr ⟨hrsdp, hfield⟩)
  · intro h x n hread
    obtain ⟨hrsdp, hfield⟩ := (hreads x n).mp hread
    exact h hrsdp x n hfield

/-- What is mapped after the mappings and creations of the boot. -/
theorem mapped_iff_mapsAddress (hboot : Booted w₀) (hpas : ∀ pa ∈ pas, pa < 2 ^ 32)
    (hcalls : ∀ c ∈ calls, c.Creates)
    (hrun : exec World.step w₀ (pas.map .pagingMapMmio2mb ++ calls) = some w)
    (hcond : (∀ pa ∈ pas, ¬ (2 ^ 30 ≤ pa ∧ pa < 2 ^ 31)) ∨ .createUserProcess ∉ calls)
    (x n : Nat) :
    Mapped w x n ↔ ∀ y, x ≤ y → y < x + n → mapsAddress pas y = true := by
  obtain ⟨L, H, hlists⟩ := hboot.mapped hpas hcalls hrun hcond
  exact forall_congr' fun y => imp_congr_right fun _ => imp_congr_right fun _ =>
    H.mapped_iff hlists hpas

/-- Before anything is mapped that is the first gigabyte. -/
theorem mapped_iff_low (hboot : Booted w₀) (x n : Nat) :
    Mapped w₀ x n ↔ ∀ y, x ≤ y → y < x + n → y < 2 ^ 30 := by
  have hstart : exec World.step w₀ (([] : List Nat).map .pagingMapMmio2mb ++ []) =
    some w₀ := rfl
  rw [mapped_iff_mapsAddress hboot (by simp) (by simp) hstart (Or.inr (by simp))]
  exact forall_congr' fun y => imp_congr_right fun _ => imp_congr_right fun _ =>
    decide_eq_true_iff

/-- **When the firmware's tables are mapped where they are read.**  For the search of
`apic_apply_acpi_bases`, all its fields have to be in the first gigabyte.  For that of
`smp_start_aps`, a field may also be in a 2 MiB page that was mapped for an APIC. -/
theorem acpi_reads_mapped_iff {m₁ m₂ : Mem} (hboot : Booted w₀) (hpas : ∀ pa ∈ pas, pa < 2 ^ 32)
    (hcalls : ∀ c ∈ calls, c.Creates)
    (hrun : exec World.step w₀ (pas.map .pagingMapMmio2mb ++ calls) = some w)
    (hcond : (∀ pa ∈ pas, ¬ (2 ^ 30 ≤ pa ∧ pa < 2 ^ 31)) ∨ .createUserProcess ∉ calls) :
    (AllMapped w₀ (acpiFindApicBases m₁ gRsdp) ∧
      AllMapped w (acpiFindCpus m₂ gRsdp Smp.maxApCpus)) ↔
      (gRsdp ≠ 0 →
        (∀ x n, BasesField m₁ gRsdp x n → ∀ y, x ≤ y → y < x + n → y < 2 ^ 30) ∧
        ∀ x n, CpusField m₂ gRsdp Smp.maxApCpus x n → ∀ y, x ≤ y → y < x + n →
          mapsAddress pas y = true) := by
  rw [allMapped_iff fun x n => mem_acpiFindApicBases_reads,
    allMapped_iff fun x n => mem_acpiFindCpus_reads, ← imp_and]
  simp only [mapped_iff_low hboot, mapped_iff_mapsAddress hboot hpas hcalls hrun hcond]

/-- The tables of the BIOS area, read before and after the APICs are mapped, the second
time with an address space and a ring-3 process there. -/
theorem acpi_reads_mapped_bios_area :
    ∃ w₀ w, pagingInitKernelMap (poolState 0x200000) = some ((), w₀.page) ∧
      exec World.step w₀ ([0xFEE00000, 0xFEC00000, 0xFEC00000].map .pagingMapMmio2mb ++
        [.createAddressSpace, .createUserProcess]) = some w ∧
      AllMapped w₀ (acpiFindApicBases (twoProcessors 0xF0000 1) 0xE0000) ∧
      AllMapped w (acpiFindCpus (twoProcessors 0xF0000 1) 0xE0000 Smp.maxApCpus) := by
  obtain ⟨w₀, w, hinit, hboot, hrun⟩ := exists_run 0x200000
    ([0xFEE00000, 0xFEC00000, 0xFEC00000].map .pagingMapMmio2mb ++
      [.createAddressSpace, .createUserProcess])
    (by unfold IsFrame; decide) (by decide) (by decide)
  refine ⟨w₀, w, hinit, hrun, ?_⟩
  refine (acpi_reads_mapped_iff hboot (by simp) (by simp [Op.Creates]) hrun
    (Or.inl (by simp))).mpr fun hrsdp => ?_
  have hbases : ∀ p ∈ (acpiFindApicBases (twoProcessors 0xF0000 1) 0xE0000).reads,
      p.1 + p.2 ≤ 2 ^ 30 := by
    decide +kernel
  have hcpus : ∀ p ∈ (acpiFindCpus (twoProcessors 0xF0000 1) 0xE0000 Smp.maxApCpus).reads,
      p.1 + p.2 ≤ 2 ^ 30 := by
    decide +kernel
  constructor
  · intro x n hfield y _ hy
    exact Nat.lt_of_lt_of_le hy
      (hbases (x, n) (mem_acpiFindApicBases_reads.mpr ⟨hrsdp, hfield⟩))
  · intro x n hfield y _ hy
    have hlow := hcpus (x, n) (mem_acpiFindCpus_reads.mpr ⟨hrsdp, hfield⟩)
    exact mapsAddress_low (Nat.lt_of_lt_of_le hy hlow) (by simp)

/-- An RSDT below 2 GiB: its length is read where nothing is mapped. -/
theorem rsdt_above_identity_map :
    ∃ w₀, pagingInitKernelMap (poolState 0x200000) = some ((), w₀.page) ∧ Booted w₀ ∧
      (findMadt (twoProcessors 0x7FFE0000 1) 0xE0000).value = some 0xF1000 ∧
      ¬ AllMapped w₀ (findMadt (twoProcessors 0x7FFE0000 1) 0xE0000) ∧
      ¬ AllMapped w₀ (acpiFindApicBases (twoProcessors 0x7FFE0000 1) 0xE0000) := by
  obtain ⟨w₀, _, hinit, hboot, -⟩ :=
    exists_run 0x200000 [] (by unfold IsFrame; decide) (by decide) (by decide)
  have hroot : rootTable (twoProcessors 0x7FFE0000 1) 0xE0000 = (0x7FFE0000, 4) := by
    decide +kernel
  have hlength : SearchField (twoProcessors 0x7FFE0000 1) 0xE0000 (0x7FFE0000 + 4) 4 := by
    have hfield : SearchField (twoProcessors 0x7FFE0000 1) 0xE0000 _ 4 := .length
    rw [hroot] at hfield
    exact hfield
  have hunmapped : ¬ Mapped w₀ (0x7FFE0000 + 4) 4 := by
    intro hmapped
    exact absurd ((mapped_iff_low hboot _ _).mp hmapped _ (Nat.le_refl _) (by decide))
      (by decide)
  refine ⟨w₀, hinit, hboot, by decide +kernel, fun h => hunmapped ?_, fun h => hunmapped ?_⟩
  · exact h _ _ (mem_findMadt_reads.mpr ⟨by decide, hlength⟩)
  · exact h _ _ (mem_acpiFindApicBases_reads.mpr ⟨by decide, .search hlength⟩)

end Reads

end NekaKernel.Acpi
