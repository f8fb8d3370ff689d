/-
  Paging/Commute.lean --- mappings one after the other.

  Source: `paging_map_mmio_2mb` in `paging64.c`, with its callers `ioapic_write` and
  `lapic_enable` in `apic.c`, which call it again for a page that is mapped.

  A mapping stores one entry, and takes a frame for a page directory if its gigabyte
  has none.  Two mappings of different pages may come in either order: the frames that
  `alloc_frame` returns for the page directories are then exchanged, and nothing else
  is different.
-/
import Mathlib.Logic.Equiv.Basic
import NekaKernel.Foundation.Stores
import NekaKernel.Paging.KernelMap

set_option autoImplicit false

namespace NekaKernel.Paging

open NekaKernel.Foundation NekaKernel.Kernel

/-- Calls of `paging_map_mmio_2mb` alone. -/
def Op.Maps : Op → Prop
  | .pagingMapMmio2mb pa => pa < 2 ^ 64
  | .createAddressSpace => False
  | .createUserProcess => False

/-- `w'` is `w` with its frames renamed by `σ`, which moves page directories only. -/
structure Renamed (σ : Equiv.Perm Nat) (w w' : World) : Prop where
  kernelPml4 : w'.page.kernelPml4 = w.page.kernelPml4
  kernelPdpt : w'.page.kernelPdpt = w.page.kernelPdpt
  cr3 : w'.page.cr3 = w.page.cr3
  supply : w'.page.supply = w.page.supply
  spaces : w'.spaces = w.spaces
  directories : ∀ f, σ f ≠ f → ∃ i < 512, w.page.mem.entry w.page.kernelPdpt i = f ||| 0x03
  links : ∀ i < 512, (w.page.mem.entry w.page.kernelPdpt i = 0 ∧
    w'.page.mem.entry w.page.kernelPdpt i = 0) ∨
    ∃ d, w.page.mem.entry w.page.kernelPdpt i = d ||| 0x03 ∧
      w'.page.mem.entry w.page.kernelPdpt i = σ d ||| 0x03
  entries : ∀ t, IsFrame t → t ≠ w.page.kernelPdpt →
    ∀ i < 512, w'.page.mem.entry (σ t) i = w.page.mem.entry t i

/-! ## One mapping -/

/-- What a mapping of `pa` into the page directory `d` did. -/
structure MapsInto (w : World) (L : Layout) (pa d : Nat) (w' : World) (L' : Layout) : Prop where
  holds : Holds w' L'
  directory : L'.pds.lookup (tableIndex pa 30) = some d
  other : ∀ g ≠ tableIndex pa 30, L'.pds.lookup g = L.pds.lookup g
  origin : (L.pds.lookup (tableIndex pa 30) = some d ∧ w'.page.supply = w.page.supply) ∨
    (L.pds.lookup (tableIndex pa 30) = none ∧ w.page.supply = d :: w'.page.supply)
  kernelPml4 : w'.page.kernelPml4 = w.page.kernelPml4
  kernelPdpt : w'.page.kernelPdpt = w.page.kernelPdpt
  cr3 : w'.page.cr3 = w.page.cr3
  spaces : w'.spaces = w.spaces
  entries : ∀ t i, IsFrame t → i < 512 → w'.page.mem.entry t i =
    if t = d ∧ i = tableIndex pa 21 then pa ||| 0x93
    else if L.pds.lookup (tableIndex pa 30) = none ∧ t = w.page.kernelPdpt ∧
      i = tableIndex pa 30 then d ||| 0x03
    else if L.pds.lookup (tableIndex pa 30) = none ∧ t = d then 0
    else w.page.mem.entry t i

section Mapping

variable {w w' : World} {L : Layout} {pa d : Nat}

theorem Holds.mapsInto (H : Holds w L) (hpa : pa < 2 ^ 64)
    (h : w.step (.pagingMapMmio2mb pa) = some w') :
    ∃ d L', MapsInto w L pa d w' L' := by
  obtain ⟨⟨⟨⟩, s'⟩, hcall, rfl⟩ := Option.map_eq_some_iff.mp h
  cases hl : L.pds.lookup (tableIndex pa 30) with
  | some d =>
    obtain ⟨H', -⟩ := H.mmio_present hpa hcall hl
    obtain ⟨hsupply, T, hentry⟩ := mmio_of_present hcall hpa (H.pds_table _ d hl)
      (by rw [H.pdpt _ (tableIndex_lt pa 30), link_of_some hl])
    refine ⟨d, L, H', hl, fun _ _ => rfl, Or.inl ⟨hl, hsupply⟩, T.kernelPml4, T.kernelPdpt,
      T.cr3, rfl, ?_⟩
    intro t i ht hi
    rw [hentry t i ht hi]
    simp [hl]
  | none =>
    obtain ⟨pd, hsupply, T, hentry⟩ := mmio_of_absent H.ready hcall hpa (by
      rw [H.pdpt _ (tableIndex_lt pa 30), link_of_none hl]
      rfl)
    obtain ⟨pd', H', -⟩ := H.mmio_absent hpa hcall hl
    have hpdt : IsTable pd := H.ready.tables pd (hsupply ▸ List.mem_cons_self)
    have hpdpt : w.page.kernelPdpt ≠ pd := by
      intro heq
      exact H.notMem_supply (mem_frames_pdpt w L) (hsupply ▸ heq ▸ List.mem_cons_self)
    -- both name the frame that the PDPT points to
    have hsame : pd' = pd := by
      have hlink := H'.pdpt _ (tableIndex_lt pa 30)
      dsimp only at hlink
      rw [T.kernelPdpt, hentry _ _ H.isTable_pdpt.1 (tableIndex_lt pa 30),
        link_cons, if_pos rfl, if_neg fun heq => hpdpt heq.1, if_pos ⟨rfl, rfl⟩] at hlink
      have hpdt' : IsTable pd' :=
        H'.isTable (Holds.mem_pds (List.mem_map_of_mem List.mem_cons_self))
      rw [← pageMask_or hpdt' (show 0x03 < 4096 by decide), ← hlink,
        pageMask_or hpdt (by decide)]
    subst hsame
    refine ⟨_, _, H', List.lookup_cons_self, fun g hg => ?_, Or.inr ⟨hl, hsupply⟩, T.kernelPml4,
      T.kernelPdpt, T.cr3, rfl, fun t i ht hi => ?_⟩
    · rw [List.lookup_cons, beq_eq_false_iff_ne.mpr hg]
    · rw [hentry t i ht hi]
      simp [hl]

/-- A mapping in a gigabyte that has a page directory is one store. -/
theorem Holds.mmio_stores (H : Holds w L) (hl : L.pds.lookup (tableIndex pa 30) = some d) :
    w.step (.pagingMapMmio2mb pa) =
      (storeEntry d (tableIndex pa 21) (pa ||| 0x93) w.page).map fun made => { w with
        page := made.2 } := by
  have he : w.page.mem.entry w.page.kernelPdpt (tableIndex pa 30) = d ||| 0x03 := by
    rw [H.pdpt _ (tableIndex_lt pa 30), link_of_some hl]
  have hd := H.pds_table _ d hl
  have hpresent : present (d ||| 0x03) = true := present_or hd
  have hnext : getOrCreateNextLevel w.page.kernelPdpt (tableIndex pa 30) 0x03 w.page =
      some (d, w.page) := by
    unfold getOrCreateNextLevel
    refine (bind_of_some (show _ = some (_, w.page) from rfl)).trans ?_
    rw [he, if_pos hpresent, pageMask_or hd (by decide)]
    rfl
  have hcall : pagingMapMmio2mb pa w.page = storeEntry d (tableIndex pa 21) (pa ||| 0x93)
      w.page := by
    unfold pagingMapMmio2mb
    refine (bind_of_some (show _ = some (_, w.page) from rfl)).trans ?_
    exact bind_of_some hnext
  exact congrArg (Option.map _) hcall

/-- A mapping returns, unless it has no frame for a new page directory. -/
theorem Holds.mmio_returns (H : Holds w L)
    (hroom : L.pds.lookup (tableIndex pa 30) ≠ none ∨ w.page.supply ≠ []) :
    ∃ w', w.step (.pagingMapMmio2mb pa) = some w' := by
  cases hl : L.pds.lookup (tableIndex pa 30) with
  | some d => exact ⟨_, H.mmio_stores hl⟩
  | none =>
    have hlen : 1 ≤ w.page.supply.length :=
      List.length_pos_of_ne_nil (hroom.resolve_left fun h => h hl)
    obtain ⟨r, s', h, -⟩ := returns_pagingMapMmio2mb pa w.page hlen
    exact ⟨_, Option.map_eq_some_iff.mpr ⟨_, h, rfl⟩⟩

/-- **Mapping again.**  An entry that is there is stored over itself. -/
theorem Holds.mmio_again (H : Holds w L) (hl : L.pds.lookup (tableIndex pa 30) = some d)
    (he : w.page.mem.entry d (tableIndex pa 21) = pa ||| 0x93) :
    ∃ writes, w.step (.pagingMapMmio2mb pa) = some { w with
      page := { w.page with writes := writes } } := by
  have hmem : w.page.mem.write (d + 8 * tableIndex pa 21) 8 (pa ||| 0x93) = w.page.mem := by
    rw [← he]
    exact Mem.write_read _ _ _
  refine ⟨(d + 8 * tableIndex pa 21, 8) :: w.page.writes, ?_⟩
  rw [H.mmio_stores hl]
  unfold storeEntry store
  rw [Option.map_some, hmem]

/-- **A mapping is local.** -/
theorem Holds.translate_mmio {e : Nat → Nat} (H : Holds w L) (hlists : Lists w L e)
    (hpa : pa < 2 ^ 39) (h : w.step (.pagingMapMmio2mb pa) = some w') {va : Nat}
    (hva : va / 2 ^ 21 ≠ pa / 2 ^ 21) :
    translateVa w'.page.mem w'.page.kernelPml4 va =
      translateVa w.page.mem w.page.kernelPml4 va := by
  obtain ⟨L', H', hlists', -⟩ := H.lists_mmio hlists (Nat.lt_trans hpa (by decide)) h
  rw [H'.translate_page hlists', H.translate_page hlists]
  by_cases hlow : va < 2 ^ 39
  · have hnumber : pageNumber va ≠ pageNumber pa := by
      unfold pageNumber
      omega
    unfold mapPage
    rw [Function.update_of_ne hnumber]
  · rw [if_neg hlow, if_neg hlow]

end Mapping

/-! ## Two mappings -/

section Two

variable {w wa wb w₁ w₂ w' : World} {L La Lb L₁ L₂ : Layout} {pa pb da db da' db' : Nat}

/-- Two mappings in either order: what is left to compare. -/
theorem MapsInto.renamed {σ : Equiv.Perm Nat} (MA : MapsInto w L pa da wa La)
    (MB : MapsInto wa La pb db w₁ L₁) (MB' : MapsInto w L pb db' wb Lb)
    (MA' : MapsInto wb Lb pa da' w₂ L₂) (hsupply : w₂.page.supply = w₁.page.supply)
    (hmoved : ∀ f, σ f ≠ f → ∃ i < 512, L₁.pds.lookup i = some f)
    (hlookup : ∀ i, L₂.pds.lookup i = (L₁.pds.lookup i).map σ)
    (hentries : ∀ t, IsFrame t → t ≠ w.page.kernelPdpt → ∀ i < 512,
      w₂.page.mem.entry (σ t) i = w₁.page.mem.entry t i) : Renamed σ w₁ w₂ := by
  have hpdpt₁ : w₁.page.kernelPdpt = w.page.kernelPdpt := MB.kernelPdpt.trans MA.kernelPdpt
  have hpdpt₂ : w₂.page.kernelPdpt = w.page.kernelPdpt := MA'.kernelPdpt.trans MB'.kernelPdpt
  have hlink₁ := MB.holds.pdpt
  have hlink₂ := MA'.holds.pdpt
  rw [hpdpt₁] at hlink₁
  rw [hpdpt₂] at hlink₂
  refine ⟨?_, hpdpt₂.trans hpdpt₁.symm, ?_, hsupply, ?_, fun f hf => ?_, fun i hi => ?_,
    fun t ht hne i hi => ?_⟩
  · rw [MA'.kernelPml4, MB'.kernelPml4, MB.kernelPml4, MA.kernelPml4]
  · rw [MA'.cr3, MB'.cr3, MB.cr3, MA.cr3]
  · rw [MA'.spaces, MB'.spaces, MB.spaces, MA.spaces]
  · obtain ⟨i, hi, hl⟩ := hmoved f hf
    exact ⟨i, hi, by rw [hpdpt₁, hlink₁ i hi, link_of_some hl]⟩
  · rw [hpdpt₁, hlink₁ i hi, hlink₂ i hi]
    have hl₂ := hlookup i
    cases hl : L₁.pds.lookup i with
    | none =>
      rw [hl] at hl₂
      exact Or.inl ⟨link_of_none hl, link_of_none hl₂⟩
    | some d =>
      rw [hl] at hl₂
      exact Or.inr ⟨d, link_of_some hl, link_of_some hl₂⟩
  · exact hentries t ht (hpdpt₁ ▸ hne) i hi

/-- Where the frames are the same, nothing is renamed. -/
theorem MapsInto.renamed_refl (MA : MapsInto w L pa da wa La) (MB : MapsInto wa La pb db w₁ L₁)
    (MB' : MapsInto w L pb db' wb Lb) (MA' : MapsInto wb Lb pa da' w₂ L₂)
    (hsupply : w₂.page.supply = w₁.page.supply)
    (hlookup : ∀ i, L₂.pds.lookup i = L₁.pds.lookup i)
    (hentries : ∀ t i, IsFrame t → i < 512 → w₂.page.mem.entry t i = w₁.page.mem.entry t i) :
    Renamed (Equiv.refl Nat) w₁ w₂ := by
  refine MA.renamed MB MB' MA' hsupply (fun f hf => absurd rfl hf) (fun i => ?_)
    fun t ht _ i hi => hentries t i ht hi
  rw [hlookup i]
  cases L₁.pds.lookup i <;> rfl

/-- Two pages of one gigabyte. -/
theorem renamed_same_gigabyte (MA : MapsInto w L pa da wa La) (MB : MapsInto wa La pb db w₁ L₁)
    (MB' : MapsInto w L pb db' wb Lb) (MA' : MapsInto wb Lb pa da' w₂ L₂)
    (hg : tableIndex pa 30 = tableIndex pb 30) (hj : tableIndex pa 21 ≠ tableIndex pb 21) :
    Renamed (Equiv.refl Nat) w₁ w₂ := by
  have hla : La.pds.lookup (tableIndex pb 30) = some da := hg ▸ MA.directory
  have hlb : Lb.pds.lookup (tableIndex pa 30) = some db' := hg ▸ MB'.directory
  obtain ⟨rfl, hs₁⟩ : da = db ∧ w₁.page.supply = wa.page.supply := by
    have horigin := MB.origin
    rw [hla] at horigin
    simpa using horigin
  obtain ⟨rfl, hs₂⟩ : db' = da' ∧ w₂.page.supply = wb.page.supply := by
    have horigin := MA'.origin
    rw [hlb] at horigin
    simpa using horigin
  obtain ⟨rfl, hs⟩ : db' = da ∧ wb.page.supply = wa.page.supply := by
    have hA := MA.origin
    have hB := MB'.origin
    rw [← hg] at hB
    grind
  refine MA.renamed_refl MB MB' MA' (by rw [hs₂, hs, hs₁]) (fun i => ?_) fun t i ht hi => ?_
  · by_cases hi : i = tableIndex pa 30
    · rw [hi, MA'.directory, hg, MB.directory]
    · rw [MA'.other i hi, MB'.other i (hg ▸ hi), MB.other i (hg ▸ hi), MA.other i hi]
  · rw [MA'.entries t i ht hi, MB'.entries t i ht hi, MB.entries t i ht hi,
      MA.entries t i ht hi, hla, hlb, hg]
    grind

/-- The directories of two gigabytes, and the PDPT, are three frames. -/
theorem Holds.directories_ne (H : Holds w L) {g g' d d' : Nat} (hg : g ≠ g')
    (hd : L.pds.lookup g = some d) (hd' : L.pds.lookup g' = some d') :
    d ≠ d' ∧ w.page.kernelPdpt ≠ d ∧ w.page.kernelPdpt ≠ d' := by
  refine ⟨?_, (H.kernel_ne.2 d (mem_of_lookup hd)).2, (H.kernel_ne.2 d' (mem_of_lookup hd')).2⟩
  rintro rfl
  exact hg (H.pds_inj hd hd')

/-- Pages of two gigabytes, one of which has a page directory. -/
theorem renamed_other_gigabyte (MA : MapsInto w L pa da wa La) (MB : MapsInto wa La pb db w₁ L₁)
    (MB' : MapsInto w L pb db' wb Lb) (MA' : MapsInto wb Lb pa da' w₂ L₂)
    (hg : tableIndex pa 30 ≠ tableIndex pb 30)
    (hone : L.pds.lookup (tableIndex pa 30) ≠ none ∨ L.pds.lookup (tableIndex pb 30) ≠ none) :
    Renamed (Equiv.refl Nat) w₁ w₂ := by
  have hla := MA.other _ hg.symm
  have hlb := MB'.other _ hg
  have hda := (MB.other _ hg).trans MA.directory
  obtain ⟨hne, hpa, hpb⟩ := MB.holds.directories_ne hg hda MB.directory
  rw [MB.kernelPdpt, MA.kernelPdpt] at hpa hpb
  obtain ⟨rfl, rfl, hs⟩ : da' = da ∧ db' = db ∧ w₂.page.supply = w₁.page.supply := by
    have hA := MA.origin
    have hB := MB.origin
    have hB' := MB'.origin
    have hA' := MA'.origin
    rw [hla] at hB
    rw [hlb] at hA'
    grind
  refine MA.renamed_refl MB MB' MA' hs (fun i => ?_) fun t i ht hi => ?_
  · by_cases hia : i = tableIndex pa 30
    · rw [hia, MA'.directory, hda]
    · rw [MA'.other i hia]
      by_cases hib : i = tableIndex pb 30
      · rw [hib, MB'.directory, MB.directory]
      · rw [MB'.other i hib, MB.other i hib, MA.other i hia]
  · rw [MA'.entries t i ht hi, MB'.entries t i ht hi, MB.entries t i ht hi,
      MA.entries t i ht hi, hla, hlb, MA.kernelPdpt, MB'.kernelPdpt]
    grind

/-- Pages of two gigabytes without page directories: the two new ones are exchanged. -/
theorem Holds.renamed_swap (H : Holds w L) (MA : MapsInto w L pa da wa La)
    (MB : MapsInto wa La pb db w₁ L₁) (MB' : MapsInto w L pb db' wb Lb)
    (MA' : MapsInto wb Lb pa da' w₂ L₂) (hg : tableIndex pa 30 ≠ tableIndex pb 30)
    (hna : L.pds.lookup (tableIndex pa 30) = none)
    (hnb : L.pds.lookup (tableIndex pb 30) = none) :
    Renamed (Equiv.swap da db) w₁ w₂ := by
  have hla := (MA.other _ hg.symm).trans hnb
  have hlb := (MB'.other _ hg).trans hna
  have hda := (MB.other _ hg).trans MA.directory
  obtain ⟨hne, hpa, hpb⟩ := MB.holds.directories_ne hg hda MB.directory
  rw [MB.kernelPdpt, MA.kernelPdpt] at hpa hpb
  obtain ⟨hsa, hsb⟩ : w.page.supply = da :: wa.page.supply ∧
      wa.page.supply = db :: w₁.page.supply := by
    have hA := MA.origin
    have hB := MB.origin
    rw [hna] at hA
    rw [hla] at hB
    exact ⟨by simpa using hA, by simpa using hB⟩
  obtain ⟨rfl, rfl, hs⟩ : db' = da ∧ da' = db ∧ w₂.page.supply = w₁.page.supply := by
    have hB' := MB'.origin
    have hA' := MA'.origin
    rw [hnb] at hB'
    rw [hlb] at hA'
    grind
  have hold : ∀ i d, L.pds.lookup i = some d → Equiv.swap db' da' d = d := by
    intro i d hl
    have hin := H.notMem_supply (Holds.mem_pds (mem_of_lookup hl))
    rw [hsa, hsb] at hin
    refine Equiv.swap_apply_of_ne_of_ne ?_ ?_
    · rintro rfl
      exact hin List.mem_cons_self
    · rintro rfl
      exact hin (List.mem_cons_of_mem _ List.mem_cons_self)
  refine MA.renamed MB MB' MA' hs (fun f hf => ?_) (fun i => ?_) fun t ht hpdpt i hi => ?_
  · by_cases hfa : f = db'
    · exact ⟨_, tableIndex_lt pa 30, hfa ▸ hda⟩
    · by_cases hfb : f = da'
      · exact ⟨_, tableIndex_lt pb 30, hfb ▸ MB.directory⟩
      · exact absurd (Equiv.swap_apply_of_ne_of_ne hfa hfb) hf
  · by_cases hia : i = tableIndex pa 30
    · rw [hia, MA'.directory, hda, Option.map_some, Equiv.swap_apply_left]
    · rw [MA'.other i hia]
      by_cases hib : i = tableIndex pb 30
      · rw [hib, MB'.directory, MB.directory, Option.map_some, Equiv.swap_apply_right]
      · rw [MB'.other i hib, MB.other i hib, MA.other i hia]
        cases hl : L.pds.lookup i with
        | none => rfl
        | some d => rw [Option.map_some, hold i d hl]
  · have hframe : IsFrame (Equiv.swap db' da' t) := by
      rw [Equiv.swap_apply_def]
      split
      · exact (MB.holds.pds_table _ _ MB.directory).1
      · split
        · exact (MB.holds.pds_table _ _ hda).1
        · exact ht
    rw [MA'.entries _ i hframe hi, MB'.entries _ i hframe hi, MB.entries t i ht hi,
      MA.entries t i ht hi, hla, hlb, hna, hnb,
      MA.kernelPdpt, MB'.kernelPdpt, Equiv.swap_apply_def]
    by_cases hta : t = db'
    · subst hta
      simp [hne, hpa.symm, hpb.symm]
    · by_cases htb : t = da'
      · subst htb
        simp [hne, hne.symm, hpa.symm, hpb.symm]
      · simp [hta, htb, hpdpt]

/-- The other order returns too. -/
theorem Holds.mmio_returns_swapped (H : Holds w L) (MA : MapsInto w L pa da wa La)
    (MB : MapsInto wa La pb db w₁ L₁) :
    ∃ wb, w.step (.pagingMapMmio2mb pb) = some wb ∧ ∀ db' Lb, MapsInto w L pb db' wb Lb →
      ∃ w₂, wb.step (.pagingMapMmio2mb pa) = some w₂ := by
  have hA := MA.origin
  have hB := MB.origin
  by_cases hg : tableIndex pa 30 = tableIndex pb 30
  · have hroom : L.pds.lookup (tableIndex pb 30) ≠ none ∨ w.page.supply ≠ [] := by
      rw [← hg]
      rcases hA with ⟨hsome, -⟩ | ⟨-, hsupply⟩
      · exact Or.inl (by simp [hsome])
      · exact Or.inr (by simp [hsupply])
    obtain ⟨wb, hwb⟩ := H.mmio_returns hroom
    refine ⟨wb, hwb, fun db' Lb MB' => MB'.holds.mmio_returns (Or.inl ?_)⟩
    rw [hg, MB'.directory]
    simp
  · rw [MA.other _ (Ne.symm hg)] at hB
    have hroom : L.pds.lookup (tableIndex pb 30) ≠ none ∨ w.page.supply ≠ [] := by
      rcases hB with ⟨hsome, -⟩ | ⟨-, hsupply⟩
      · exact Or.inl (by simp [hsome])
      · rcases hA with ⟨-, hsame⟩ | ⟨-, hfirst⟩
        · exact Or.inr (by simp [← hsame, hsupply])
        · exact Or.inr (by simp [hfirst])
    obtain ⟨wb, hwb⟩ := H.mmio_returns hroom
    refine ⟨wb, hwb, fun db' Lb MB' => MB'.holds.mmio_returns ?_⟩
    rw [MB'.other _ hg]
    have hB' := MB'.origin
    rcases hA with ⟨hsome, -⟩ | ⟨-, hfirst⟩
    · exact Or.inl (by simp [hsome])
    · -- the frame that the first order left for `pa`
      right
      rcases hB' with ⟨-, hsame⟩ | ⟨hnone, hfirst'⟩
      · simp [hsame, hfirst]
      · have hsecond := hB.resolve_left fun h => by simp [hnone] at h
        have htails : wb.page.supply = wa.page.supply :=
          (List.cons.inj (hfirst'.symm.trans hfirst)).2
        simp [htails, hsecond.2]

/-- **Two mappings commute**, up to the frames of their page directories. -/
theorem Holds.mmio_commute (H : Holds w L) (hpa : pa < 2 ^ 39) (hpb : pb < 2 ^ 39)
    (hne : pb / 2 ^ 21 ≠ pa / 2 ^ 21)
    (h : exec World.step w [.pagingMapMmio2mb pa, .pagingMapMmio2mb pb] = some w₁) :
    ∃ w₂ σ, exec World.step w [.pagingMapMmio2mb pb, .pagingMapMmio2mb pa] = some w₂ ∧
      Renamed σ w₁ w₂ := by
  obtain ⟨wa, hwa, hrest⟩ := Option.bind_eq_some_iff.mp h
  obtain ⟨w₁', hw₁, hlast⟩ := Option.bind_eq_some_iff.mp hrest
  obtain rfl := Option.some.inj hlast
  have hpa' : pa < 2 ^ 64 := Nat.lt_trans hpa (by decide)
  have hpb' : pb < 2 ^ 64 := Nat.lt_trans hpb (by decide)
  obtain ⟨da, La, MA⟩ := H.mapsInto hpa' hwa
  obtain ⟨db, L₁, MB⟩ := MA.holds.mapsInto hpb' hw₁
  obtain ⟨wb, hwb, hnext⟩ := H.mmio_returns_swapped MA MB
  obtain ⟨db', Lb, MB'⟩ := H.mapsInto hpb' hwb
  obtain ⟨w₂, hw₂⟩ := hnext db' Lb MB'
  obtain ⟨da', L₂, MA'⟩ := MB'.holds.mapsInto hpa' hw₂
  have hrun : exec World.step w [.pagingMapMmio2mb pb, .pagingMapMmio2mb pa] = some w₂ := by
    rw [exec, hwb, Option.bind_some, exec, hw₂]
    rfl
  by_cases hg : tableIndex pa 30 = tableIndex pb 30
  · refine ⟨w₂, _, hrun, renamed_same_gigabyte MA MB MB' MA' hg fun hj => hne ?_⟩
    rw [tableIndex_eq, tableIndex_eq] at hg hj
    omega
  · by_cases hboth : L.pds.lookup (tableIndex pa 30) = none ∧
      L.pds.lookup (tableIndex pb 30) = none
    · exact ⟨w₂, _, hrun, H.renamed_swap MA MB MB' MA' hg hboth.1 hboth.2⟩
    · exact ⟨w₂, _, hrun, renamed_other_gigabyte MA MB MB' MA' hg (by tauto)⟩

end Two

/-! ## Any history -/

section History

variable {w w' : World} {L : Layout} {e : Nat → Nat} {pa pb : Nat}

theorem reach_maps (r : Reach Booted World.step (fun _ op => op.Maps) w) :
    ∃ L e, Holds w L ∧ Lists w L e := by
  refine Reach.invariant (P := fun w => ∃ L e, Holds w L ∧ Lists w L e) ?_ ?_ r
  · intro w hboot
    obtain ⟨L, H, hlists, -⟩ := hboot.lists
    exact ⟨L, _, H, hlists⟩
  · rintro w op w' ⟨L, e, H, hlists⟩ hop h
    cases op with
    | pagingMapMmio2mb pa =>
      obtain ⟨L', H', hlists', -⟩ := H.lists_mmio hlists hop h
      exact ⟨L', _, H', hlists'⟩
    | createAddressSpace => exact hop.elim
    | createUserProcess => exact hop.elim

theorem pageNumber_ne (hpa : pa < 2 ^ 39) (hpb : pb < 2 ^ 39)
    (hne : pb / 2 ^ 21 ≠ pa / 2 ^ 21) :
    pageNumber pb ≠ pageNumber pa := by
  unfold pageNumber
  omega

theorem foldl_mapPage (e : Nat → Nat) (pas : List Nat) :
    pas.foldl mapPage e = stored e (pas.map fun pa => (pageNumber pa, pa ||| 0x93)) := by
  unfold stored
  rw [List.foldl_map]
  rfl

/-- The entry that is listed for a page stands in the page directory. -/
theorem Lists.entry (hlists : Lists w L e) (h : e (pageNumber pa) ≠ 0) :
    ∃ d, L.pds.lookup (tableIndex pa 30) = some d ∧
      w.page.mem.entry d (tableIndex pa 21) = e (pageNumber pa) := by
  have hlist := hlists _ (tableIndex_lt pa 30) _ (tableIndex_lt pa 21)
  rw [← pageNumber_eq] at hlist
  cases hl : L.pds.lookup (tableIndex pa 30) with
  | none =>
    rw [hl] at hlist
    exact absurd hlist h
  | some d =>
    rw [hl] at hlist
    exact ⟨d, rfl, hlist⟩

/-- Two mappings of different pages list the same entries in either order. -/
theorem mapPage_comm (hpa : pa < 2 ^ 39) (hpb : pb < 2 ^ 39) (hne : pb / 2 ^ 21 ≠ pa / 2 ^ 21)
    (e : Nat → Nat) :
    mapPage (mapPage e pa) pb = mapPage (mapPage e pb) pa :=
  Function.update_comm (pageNumber_ne hpa hpb hne).symm _ _ _

end History

/-- **Mappings are local, idempotent and commute.**  In every state that mappings reach:
a mapping of `pa` changes the translation of addresses in its own 2 MiB page only;
mapping `pa` again, at once or behind calls for other pages, takes no frame and leaves
memory as it is; and mappings of two pages give the same tables in either order, up to
which frames are the page directories, and the same translation. -/
theorem mmio_mapping_algebra {w : World}
    (r : Reach Booted World.step (fun _ op => op.Maps) w) {pa : Nat} (hpa : pa < 2 ^ 39) :
    (∀ w', w.step (.pagingMapMmio2mb pa) = some w' → ∀ va, va / 2 ^ 21 ≠ pa / 2 ^ 21 →
      translateVa w'.page.mem w'.page.kernelPml4 va =
        translateVa w.page.mem w.page.kernelPml4 va) ∧
    (∀ w', w.step (.pagingMapMmio2mb pa) = some w' →
      ∀ others : List Nat, (∀ pb ∈ others, pb < 2 ^ 39 ∧ pb / 2 ^ 21 ≠ pa / 2 ^ 21) →
        ∀ w'', exec World.step w' (others.map .pagingMapMmio2mb) = some w'' →
          ∃ writes, w''.step (.pagingMapMmio2mb pa) = some { w'' with
            page := { w''.page with writes := writes } }) ∧
    ∀ pb < 2 ^ 39, pb / 2 ^ 21 ≠ pa / 2 ^ 21 →
      ∀ w₁, exec World.step w [.pagingMapMmio2mb pa, .pagingMapMmio2mb pb] = some w₁ →
        ∃ w₂ σ, exec World.step w [.pagingMapMmio2mb pb, .pagingMapMmio2mb pa] = some w₂ ∧
          Renamed σ w₁ w₂ ∧
          ∀ va, translateVa w₂.page.mem w₂.page.kernelPml4 va =
            translateVa w₁.page.mem w₁.page.kernelPml4 va := by
  obtain ⟨L, e, H, hlists⟩ := reach_maps r
  have hwide : ∀ pb < 2 ^ 39, pb < 2 ^ 64 := fun pb hpb => Nat.lt_trans hpb (by decide)
  refine ⟨fun w' h va hva => H.translate_mmio hlists hpa h hva,
    fun w' h others hothers w'' hrun => ?_, fun pb hpb hne w₁ h => ?_⟩
  · obtain ⟨L', H', hlists', -⟩ := H.lists_mmio hlists (hwide pa hpa) h
    obtain ⟨L'', H'', hlists'', -⟩ :=
      Holds.lists_mmios (fun pb hpb => hwide pb (hothers pb hpb).1) H' hlists' hrun
    have hentry : others.foldl mapPage (mapPage e pa) (pageNumber pa) = pa ||| 0x93 := by
      rw [foldl_mapPage, stored_of_ne]
      · exact Function.update_self _ _ _
      · intro v hv
        obtain ⟨pb, hpb, rfl⟩ := List.mem_map.mp hv
        exact pageNumber_ne hpa (hothers pb hpb).1 (hothers pb hpb).2
    have hnonzero : others.foldl mapPage (mapPage e pa) (pageNumber pa) ≠ 0 := by
      rw [hentry]
      exact or_ne_zero pa (by decide)
    obtain ⟨d, hl, hd⟩ := hlists''.entry hnonzero
    exact H''.mmio_again hl (hd.trans hentry)
  · obtain ⟨w₂, σ, hrun, hrenamed⟩ := H.mmio_commute hpa hpb hne h
    refine ⟨w₂, σ, hrun, hrenamed, fun va => ?_⟩
    have hboth : ∀ {a b : Nat} {v : World}, a < 2 ^ 39 → b < 2 ^ 39 →
        exec World.step w [.pagingMapMmio2mb a, .pagingMapMmio2mb b] = some v →
          ∃ L', Holds v L' ∧ Lists v L' (mapPage (mapPage e a) b) := by
      intro a b v ha hb hv
      have hpas : ∀ c ∈ [a, b], c < 2 ^ 64 := by
        intro c hc
        rcases List.mem_pair.mp hc with rfl | rfl
        · exact hwide c ha
        · exact hwide c hb
      obtain ⟨L', H', hlists', -⟩ := Holds.lists_mmios hpas H hlists hv
      exact ⟨L', H', hlists'⟩
    obtain ⟨L₁, H₁, hlists₁⟩ := hboth hpa hpb h
    obtain ⟨L₂, H₂, hlists₂⟩ := hboth hpb hpa hrun
    rw [H₁.translate_page hlists₁, H₂.translate_page hlists₂, mapPage_comm hpa hpb hne]

/-- The local APIC and the I/O APIC in either order, and then the local APIC once more. -/
theorem mmio_mapping_algebra_apics :
    ∃ w₀ w₁ w₂ σ writes, pagingInitKernelMap (poolState 0x200000) = some ((), w₀.page) ∧
      exec World.step w₀ [.pagingMapMmio2mb 0xFEE00000,
        .pagingMapMmio2mb 0xFEC00000] = some w₁ ∧
      exec World.step w₀ [.pagingMapMmio2mb 0xFEC00000,
        .pagingMapMmio2mb 0xFEE00000] = some w₂ ∧
      Renamed σ w₁ w₂ ∧
      w₁.step (.pagingMapMmio2mb 0xFEE00000) = some { w₁ with
        page := { w₁.page with writes := writes } } := by
  obtain ⟨w₀, w₁, hinit, hboot, hrun⟩ :=
    exists_run 0x200000 [.pagingMapMmio2mb 0xFEE00000, .pagingMapMmio2mb 0xFEC00000]
    (by unfold IsFrame; decide) (by decide) (by decide)
  obtain ⟨-, hagain, hcommute⟩ :=
    mmio_mapping_algebra (.start hboot) (show 0xFEE00000 < 2 ^ 39 by decide)
  obtain ⟨w₂, σ, hswapped, hrenamed, -⟩ := hcommute 0xFEC00000 (by decide) (by decide) w₁ hrun
  obtain ⟨w', hfirst, hrest⟩ := Option.bind_eq_some_iff.mp hrun
  obtain ⟨writes, hsecond⟩ := hagain w' hfirst [0xFEC00000] (by simp) w₁ hrest
  exact ⟨w₀, w₁, w₂, σ, writes, hinit, hrun, hswapped, hrenamed, hsecond⟩

end NekaKernel.Paging
