/-
  Paging/Mmio.lean --- the mapping of a device register page.

  Source: `paging_map_mmio_2mb` in `paging64.c`, with the addresses that
  `apic_apply_acpi_bases` takes from the MADT.

  The function is written for an address that is aligned to 2 MiB and is handed the
  base as the firmware gives it.  A page-directory entry that maps 2 MiB has reserved
  bits where such a base may have address bits.
-/
import NekaKernel.Paging.KernelMap

set_option autoImplicit false

namespace NekaKernel.Paging

open NekaKernel.Foundation NekaKernel.Kernel

/-- The entry at which the walk of `va` ends, and its level: 1 is that of the 2 MiB
pages.  Whether the entry is one the processor takes is not asked. -/
def leafFrom (m : Mem) (va : Nat) : Nat → Nat → Option (Nat × Nat)
  | 0, _ => none
  | level + 1, table =>
      let e := m.entry table (indexAt va (12 + 9 * level))
      if e.testBit 0 then
        if level = 0 ∨ e.testBit 7 then some (level, e) else leafFrom m va level (frameOf e)
      else none

/-- The leaf of `va` under the kernel's tables. -/
def World.leafOf (w : World) (va : Nat) : Option (Nat × Nat) :=
  if Canonical va then leafFrom w.page.mem va 4 (frameOf w.page.kernelPml4) else none

/-- The walk of `pa` reaches a present 2 MiB leaf that is not cached and has no reserved
address bit, and translates `pa` to itself. -/
def MappedAsDevice (w : World) (pa : Nat) : Prop :=
  ∃ e, w.leafOf pa = some (1, e) ∧ e.testBit 0 = true ∧ e.testBit 7 = true ∧
    e.testBit 4 = true ∧
    e / 2 ^ 13 % 2 ^ 8 = 0 ∧ ∃ t, translateVa w.page.mem w.page.kernelPml4 pa =
      some t ∧ t.pa = pa

/-- Calls as the kernel makes them: 32-bit addresses are mapped, and no ring-3 process is
made while its gigabyte has a page directory of the kernel's. -/
def Op.KeepsTables (w : World) : Op → Prop
  | .pagingMapMmio2mb pa => pa < 2 ^ 32
  | .createAddressSpace => True
  | .createUserProcess => present (w.page.mem.entry w.page.kernelPdpt 1) = false

section Leaves

variable {w : World} {L : Layout} {m : Mem} {e : Nat → Nat} {va pa table f : Nat}

theorem leafFrom_link (level : Nat)
    (he : m.entry table (indexAt va (12 + 9 * (level + 1))) = f ||| 0x03) (hf : IsTable f) :
    leafFrom m va (level + 2) table = leafFrom m va (level + 1) f := by
  have hpresent : (f ||| 0x03).testBit 0 = true := or_testBit f (by decide)
  have hlink : (f ||| 0x03).testBit 7 = false := by
    rw [frame_or_testBit hf.1 (by decide)]
    decide
  rw [leafFrom]
  simp only [he, hpresent, hlink, frameOf_or hf.1 hf.2 (show 0x03 < 4096 by decide), if_true]
  rfl

theorem leafFrom_large {e : Nat} (he : m.entry table (indexAt va 21) = e)
    (hpresent : e.testBit 0 = true) (hlarge : e.testBit 7 = true) :
    leafFrom m va 2 table = some (1, e) := by
  rw [leafFrom]
  simp only [Nat.mul_one, he, hpresent, hlarge, or_true, if_true]

/-- The leaf of an address is the entry of its 2 MiB page. -/
theorem Holds.leaf_page (H : Holds w L) (hlists : Lists w L e) (hva : va < 2 ^ 39)
    (hne : e (pageNumber va) ≠ 0) :
    w.leafOf va = some (1, e (pageNumber va)) := by
  obtain ⟨hcanonical, hzero⟩ := (canonical_low_iff va).mpr hva
  have hpml4 := H.pml4 _ (indexAt_lt va 39)
  have hpdpt := H.pdpt _ (indexAt_lt va 30)
  have hlist := hlists (indexAt va 30) (indexAt_lt va 30) (indexAt va 21) (indexAt_lt va 21)
  have hnumber : 512 * indexAt va 30 + indexAt va 21 = pageNumber va := by
    rw [pageNumber_eq, tableIndex_eq_indexAt, tableIndex_eq_indexAt]
  rw [hzero, if_pos rfl] at hpml4
  rw [hnumber] at hlist
  cases hl : L.pds.lookup (indexAt va 30) with
  | none =>
    rw [hl] at hlist
    exact absurd hlist hne
  | some d =>
    rw [hl] at hlist
    rw [link_of_some hl] at hpdpt
    obtain hempty | ⟨hpresent, hlarge⟩ := H.leaves d (mem_of_lookup hl) _ (indexAt_lt va 21)
    · exact absurd (hlist.symm.trans hempty) hne
    · unfold World.leafOf
      rw [if_pos hcanonical, frameOf_self H.isTable_pml4.1 H.isTable_pml4.2,
        leafFrom_link 2 (by rw [hzero]; exact hpml4) H.isTable_pdpt,
          leafFrom_link 1 hpdpt (H.pds_table _ d hl),
        leafFrom_large rfl hpresent hlarge]
      exact congrArg (fun a => some (1, a)) hlist

/-- A ring-3 process is made only while its gigabyte is free. -/
theorem Holds.private_of_absent (H : Holds w L)
    (h : present (w.page.mem.entry w.page.kernelPdpt 1) = false) :
    L.Private := by
  unfold Layout.Private
  cases hl : L.pds.lookup 1 with
  | none => rfl
  | some d =>
    rw [H.pdpt 1 (by decide), link_of_some hl] at h
    exact absurd ((or_testBit d (by decide)).symm.trans h) (by decide)

/-- **The state a mapping finds.** -/
theorem reach_keepsTables (r : Reach Booted World.step Op.KeepsTables w) :
    ∃ L e, Holds w L ∧ Lists w L e := by
  refine Reach.invariant (P := fun w => ∃ L e, Holds w L ∧ Lists w L e) ?_ ?_ r
  · intro w hboot
    obtain ⟨L, H, hlists, -⟩ := hboot.lists
    exact ⟨L, _, H, hlists⟩
  · rintro w op w' ⟨L, e, H, hlists⟩ hop h
    cases op with
    | pagingMapMmio2mb pa =>
      obtain ⟨L', H', hlists', -⟩ := H.lists_mmio hlists (Nat.lt_trans hop (by decide)) h
      exact ⟨L', _, H', hlists'⟩
    | createAddressSpace =>
      obtain ⟨L', H', hlists', -⟩ := H.lists_creates hlists h trivial fun hop => by cases hop
      exact ⟨L', e, H', hlists'⟩
    | createUserProcess =>
      obtain ⟨L', H', hlists', -⟩ :=
        H.lists_creates hlists h trivial fun _ => H.private_of_absent hop
      exact ⟨L', e, H', hlists'⟩

/-- The entry of a mapping sends the address to itself, if it sends it anywhere. -/
theorem pageTranslation_mmio (hpa : pa < 2 ^ 32) (hbits : pa / 2 ^ 13 % 2 ^ 8 = 0) :
    ∃ t, pageTranslation (pa ||| 0x93) pa = some t ∧ t.pa = pa := by
  have haddr : (pa ||| 0x93) / 2 ^ 21 = pa / 2 ^ 21 := by
    rw [Nat.or_div_two_pow]
    exact Nat.or_zero _
  unfold pageTranslation largePage
  rw [if_neg (or_ne_zero _ (by decide)), if_pos ⟨by decide, (mmio_entry_div pa).symm ▸ hbits⟩]
  refine ⟨_, rfl, ?_⟩
  dsimp only
  rw [haddr]
  omega

end Leaves

/-- **When a mapping is a valid identity mapping.**  In every state the kernel's calls
reach, after `paging_map_mmio_2mb(pa)` the walk of `pa` ends at a present, uncached
2 MiB leaf that translates `pa` to itself if and only if bits 13 to 20 of `pa` are zero. -/
theorem mmio_mapping_valid_iff {w w' : World} {pa : Nat}
    (r : Reach Booted World.step Op.KeepsTables w) (hpa : pa < 2 ^ 32)
    (h : w.step (.pagingMapMmio2mb pa) = some w') :
    MappedAsDevice w' pa ↔ pa / 2 ^ 13 % 2 ^ 8 = 0 := by
  obtain ⟨L, e, H, hlists⟩ := reach_keepsTables r
  obtain ⟨L', H', hlists', -⟩ := H.lists_mmio hlists (Nat.lt_trans hpa (by decide)) h
  have hlow : pa < 2 ^ 39 := Nat.lt_trans hpa (by decide)
  have hentry : mapPage e pa (pageNumber pa) = pa ||| 0x93 := Function.update_self _ _ _
  have hbit : ∀ n, Nat.testBit 0x93 n = true → (pa ||| 0x93).testBit n = true :=
    fun n hn => or_testBit pa hn
  have hleaf := H'.leaf_page hlists' hlow (hentry ▸ or_ne_zero pa (by decide))
  have htranslate := H'.translate_page hlists' pa
  rw [hentry] at hleaf
  rw [hentry, if_pos hlow] at htranslate
  unfold MappedAsDevice
  rw [hleaf, htranslate]
  constructor
  · rintro ⟨leaf, hsame, -, -, -, hreserved, -⟩
    obtain ⟨-, rfl⟩ := Prod.mk.inj (Option.some.inj hsame)
    rw [mmio_entry_div] at hreserved
    exact hreserved
  · intro hbits
    exact ⟨_, rfl, hbit 0 (by decide), hbit 7 (by decide), hbit 4 (by decide),
      (mmio_entry_div pa).symm ▸ hbits, pageTranslation_mmio hpa hbits⟩

/-- The usual I/O APIC, mapped into tables that have nothing for its gigabyte. -/
theorem mmio_mapping_valid_ioapic :
    ∃ w₀ w : World, pagingInitKernelMap (poolState 0x200000) = some ((), w₀.page) ∧
      w₀.step (.pagingMapMmio2mb 0xFEC00000) = some w ∧ MappedAsDevice w 0xFEC00000 := by
  obtain ⟨w₀, w, hinit, hboot, hrun⟩ := exists_run 0x200000 [.pagingMapMmio2mb 0xFEC00000]
    (by unfold IsFrame; decide) (by decide) (by decide)
  obtain ⟨w₁, hstep, hrest⟩ := Option.bind_eq_some_iff.mp hrun
  obtain rfl := Option.some.inj hrest
  exact ⟨w₀, w₁, hinit, hstep,
    (mmio_mapping_valid_iff (.start hboot) (by decide) hstep).mpr (by decide)⟩

/-- One at an address that is aligned to 64 KiB only: its leaf has a reserved bit set,
and the address goes nowhere. -/
theorem mmio_mapping_reserved_bit :
    ∃ w₀ w : World, pagingInitKernelMap (poolState 0x200000) = some ((), w₀.page) ∧
      w₀.step (.pagingMapMmio2mb 0xFEC10000) = some w ∧
      w.leafOf 0xFEC10000 = some (1, 0xFEC10093) ∧ ¬ 0xFEC10093 / 2 ^ 13 % 2 ^ 8 = 0 ∧
      translateVa w.page.mem w.page.kernelPml4 0xFEC10000 = none ∧
      ¬ MappedAsDevice w 0xFEC10000 := by
  obtain ⟨w₀, w, hinit, hboot, hrun⟩ := exists_run 0x200000 [.pagingMapMmio2mb 0xFEC10000]
    (by unfold IsFrame; decide) (by decide) (by decide)
  obtain ⟨w₁, hstep, hrest⟩ := Option.bind_eq_some_iff.mp hrun
  obtain rfl := Option.some.inj hrest
  obtain ⟨L, H, hlists, -⟩ := hboot.lists
  obtain ⟨L', H', hlists', -⟩ := H.lists_mmio hlists (by decide) hstep
  have hentry : mapPage identityPages 0xFEC10000 (pageNumber 0xFEC10000) = 0xFEC10093 :=
    Function.update_self _ _ _
  have hleaf : w₁.leafOf 0xFEC10000 =
      some (1, mapPage identityPages 0xFEC10000 (pageNumber 0xFEC10000)) := by
    refine H'.leaf_page hlists' (by decide) ?_
    rw [hentry]
    decide
  have htranslate := H'.translate_page hlists' 0xFEC10000
  rw [hentry] at hleaf
  rw [hentry, if_pos (by decide)] at htranslate
  have hnone : translateVa w₁.page.mem w₁.page.kernelPml4 0xFEC10000 = none :=
    htranslate.trans (by decide)
  refine ⟨w₀, w₁, hinit, hstep, hleaf, by decide, hnone, ?_⟩
  rintro ⟨_, -, -, -, -, -, t, ht, -⟩
  rw [hnone] at ht
  cases ht

end NekaKernel.Paging
