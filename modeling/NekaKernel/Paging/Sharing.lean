/-
  Paging/Sharing.lean --- tables that several spaces share.

  Source: `inherit_kernel_pdpt`, `map_user_page`, `paging_map_mmio_2mb`,
  `create_address_space` and `create_user_process` in `paging64.c`.

  A space copies the entries of the kernel's PDPT and so shares the page directories
  below them.  Two things follow.  A gigabyte the kernel maps for the first time
  after a space was made is missing from that space.  And where the kernel maps the
  gigabyte of the ring-3 pages, `map_user_page` walks into the kernel's page
  directory and writes it.  Outside these two cases creation touches nothing shared
  and every space sees what the kernel maps.
-/
import NekaKernel.Paging.Isolation

set_option autoImplicit false

namespace NekaKernel.Paging

open NekaKernel.Foundation NekaKernel.Kernel

/-! ## What creation writes -/

section Creation

variable {w w₀ w' : World} {L : Layout}

/-- Calls that make no ring-3 process. -/
def Op.MakesNoProcess : Op → Prop
  | .pagingMapMmio2mb pa => pa < 2 ^ 64
  | .createAddressSpace => True
  | .createUserProcess => False

/-- Without ring-3 processes, mappings may be anywhere. -/
theorem reach_holds_noProcess (r : Reach Booted World.step (fun _ op => op.MakesNoProcess) w) :
    ∃ L, Holds w L := by
  refine Reach.invariant (P := fun w => ∃ L, Holds w L) ?_ ?_ r
  · intro w hboot
    obtain ⟨pd, H, -⟩ := hboot.holds
    exact ⟨_, H⟩
  · rintro w op w' ⟨L, H⟩ hop h
    cases op with
    | pagingMapMmio2mb pa =>
      obtain ⟨pds, d, H', -⟩ := H.mmio hop h
      exact ⟨_, H'⟩
    | createAddressSpace =>
      obtain ⟨c, sp, -, -, H'⟩ := H.creates h trivial fun hop => by cases hop
      exact ⟨_, H'⟩
    | createUserProcess => exact hop.elim

/-- Creation leaves every table in use as it was. -/
theorem Holds.creates_frame (H : Holds w L) {op : Op} (h : w.step op = some w')
    (hop : op.Creates) (hprivate : op = .createUserProcess → L.Private) :
    (∃ new, w'.page.writes = new ++ w.page.writes ∧
      ∀ s ∈ new, ∃ f ∈ takenFrom w.page w'.page, f ≤ s.1 ∧ s.1 + s.2 ≤ f + 4096) ∧
    ∀ root ∈ w.roots, ∀ t, IsTableOf w.page.mem 4 (frameOf root) t →
      ∀ i < 512, w'.page.mem.entry t i = w.page.mem.entry t i := by
  obtain ⟨c, sp, S, -, -⟩ := H.creates h hop hprivate
  rw [takenFrom_eq S.supply]
  refine ⟨S.touches.writes, fun root hroot t ht i hi => ?_⟩
  have hin : t ∈ frames w L := H.isTableOf_mem hroot ht
  refine S.touches.entry (fun f hf => (S.table H.ready hf).1) (H.isTable hin).1 ?_ hi
  exact fun hown => H.notMem_supply hin (S.mem_supply hown)

/-- **Creation touches no shared table**, whatever 32-bit addresses were mapped
before, unless a ring-3 process is made after a mapping in its own gigabyte: all
stores go into frames taken in the call, and no table that the kernel or an earlier
space reaches changes. -/
theorem creation_touches_own_frames {pas : List Nat} {calls : List Op} {op : Op}
    (hboot : Booted w₀) (hpas : ∀ pa ∈ pas, pa < 2 ^ 32)
    (hcalls : ∀ c ∈ calls ++ [op], c.Creates)
    (hrun : exec World.step w₀ (pas.map .pagingMapMmio2mb ++ calls) = some w)
    (hstep : w.step op = some w')
    (hcond : (∀ pa ∈ pas, ¬ (2 ^ 30 ≤ pa ∧ pa < 2 ^ 31)) ∨ .createUserProcess ∉ calls ++ [op]) :
    (∃ new, w'.page.writes = new ++ w.page.writes ∧
      ∀ s ∈ new, ∃ f ∈ takenFrom w.page w'.page, f ≤ s.1 ∧ s.1 + s.2 ≤ f + 4096) ∧
    ∀ root ∈ w.roots, ∀ t, IsTableOf w.page.mem 4 (frameOf root) t →
      ∀ i < 512, w'.page.mem.entry t i = w.page.mem.entry t i := by
  have hop : op.Creates := hcalls op (by simp)
  rcases hcond with houtside | hnone
  · have hall : ∀ c ∈ pas.map Op.pagingMapMmio2mb ++ calls, c.Outside := by
      intro c hc
      rcases List.mem_append.mp hc with hc | hc
      · obtain ⟨pa, hpa, rfl⟩ := List.mem_map.mp hc
        have hlt := hpas pa hpa
        have hout := houtside pa hpa
        change pa < 2 ^ 39 ∧ (pa < 2 ^ 30 ∨ 2 ^ 31 ≤ pa)
        omega
      · have hcreates := hcalls c (List.mem_append_left _ hc)
        cases c with
        | pagingMapMmio2mb pa => exact hcreates.elim
        | createAddressSpace => trivial
        | createUserProcess => trivial
    obtain ⟨L, H, P⟩ := reach_holds (hboot.reach hall hrun)
    exact H.creates_frame hstep hop fun _ => P
  · have hall : ∀ c ∈ pas.map Op.pagingMapMmio2mb ++ calls, c.MakesNoProcess := by
      intro c hc
      rcases List.mem_append.mp hc with hc | hc
      · obtain ⟨pa, hpa, rfl⟩ := List.mem_map.mp hc
        exact Nat.lt_trans (hpas pa hpa) (by decide)
      · have hcreates := hcalls c (List.mem_append_left _ hc)
        cases c with
        | pagingMapMmio2mb pa => exact hcreates.elim
        | createAddressSpace => trivial
        | createUserProcess => exact hnone (List.mem_append_left _ hc)
    have hreach : Reach Booted World.step (fun _ op => op.MakesNoProcess) w :=
      Reach.exec (.start hboot) (fun _ _ c hc _ => hall c (List.mem_of_getElem? hc)) hrun
    obtain ⟨L, H⟩ := reach_holds_noProcess hreach
    refine H.creates_frame hstep hop fun heq => ?_
    exact absurd (heq ▸ by simp) hnone

/-- The LAPIC mapped, one address space, then a ring-3 process. -/
theorem creation_touches_own_frames_lapic :
    ∃ w₀ w w', pagingInitKernelMap (poolState 0x200000) = some ((), w₀.page) ∧
      exec World.step w₀ ([0xFEE00000].map .pagingMapMmio2mb ++ [.createAddressSpace]) =
        some w ∧
      w.step .createUserProcess = some w' ∧
      ∀ root ∈ w.roots, ∀ t, IsTableOf w.page.mem 4 (frameOf root) t →
        ∀ i < 512, w'.page.mem.entry t i = w.page.mem.entry t i := by
  obtain ⟨w₀, w', hinit, hboot, hrun⟩ := exists_run 0x200000
    [.pagingMapMmio2mb 0xFEE00000, .createAddressSpace, .createUserProcess]
    (by unfold IsFrame; decide) (by decide) (by decide)
  obtain ⟨w₁, h₁, k₁⟩ := Option.bind_eq_some_iff.mp hrun
  obtain ⟨w₂, h₂, k₂⟩ := Option.bind_eq_some_iff.mp k₁
  obtain ⟨w₃, h₃, k₃⟩ := Option.bind_eq_some_iff.mp k₂
  obtain rfl : w₃ = w' := Option.some.inj k₃
  have hprefix : exec World.step w₀
      ([0xFEE00000].map .pagingMapMmio2mb ++ [.createAddressSpace]) = some w₂ := by
    simp [exec, h₁, h₂]
  refine ⟨w₀, w₂, w₃, hinit, hprefix, h₃, ?_⟩
  refine (creation_touches_own_frames hboot (by simp) ?_ hprefix h₃ (Or.inl (by simp))).2
  simp [Op.Creates]

/-- The kernel reaches its page directories. -/
theorem Holds.isTableOf_pd (H : Holds w L) {i d : Nat} (hi : i < 512)
    (hl : L.pds.lookup i = some d) :
    IsTableOf w.page.mem 4 (frameOf w.page.kernelPml4) d := by
  have hpml4 := H.isTable_pml4
  have hpdpt := H.isTable_pdpt
  have hd := H.pds_table i d hl
  have hlink : ∀ {f}, IsTable f → (f ||| 0x03).testBit 0 = true ∧
    (f ||| 0x03).testBit 7 = false ∧
      frameOf (f ||| 0x03) = f := by
    intro f hf
    rw [frame_or_testBit hf.1 (by decide), frame_or_testBit hf.1 (by decide)]
    exact ⟨rfl, rfl, frameOf_or hf.1 hf.2 (by decide)⟩
  have hroot : w.page.mem.entry w.page.kernelPml4 0 = w.page.kernelPdpt ||| 0x03 :=
    H.pml4 0 (by decide)
  have hslot : w.page.mem.entry w.page.kernelPdpt i = d ||| 0x03 := by
    rw [H.pdpt i hi, link_of_some hl]
  rw [frameOf_self hpml4.1 hpml4.2]
  refine Or.inr ⟨0, by decide, ?_⟩
  rw [hroot, (hlink hpdpt).2.2]
  refine ⟨(hlink hpdpt).1, (hlink hpdpt).2.1, Or.inr ⟨i, hi, ?_⟩⟩
  rw [hslot, (hlink hd).2.2]
  exact ⟨(hlink hd).1, (hlink hd).2.1, Or.inl rfl⟩

/-- Where the kernel maps the gigabyte of the ring-3 pages, `create_user_process`
writes the kernel's page directory. -/
theorem Holds.process_writes_kernel (H : Holds w L) {d : Nat} (hl : L.pds.lookup 1 = some d)
    (hempty : w.page.mem.entry d 128 = 0) (h : w.step .createUserProcess = some w') :
    IsTableOf w.page.mem 4 (frameOf w.page.kernelPml4) d ∧
      w'.page.mem.entry d 128 ≠ w.page.mem.entry d 128 := by
  obtain ⟨⟨r, s'⟩, hcall, rfl⟩ := Option.map_eq_some_iff.mp h
  have hd := H.pds_table 1 d hl
  have hfresh := H.notMem_supply (Holds.mem_pds (mem_of_lookup hl))
  have hslot : w.page.mem.entry w.page.kernelPdpt 1 = d ||| 0x03 := by
    rw [H.pdpt 1 (by decide), link_of_some hl]
  obtain ⟨pt, -, hpt⟩ := createUserProcess_shared H.ready hcall hd hfresh hslot
    (by rw [hempty]; rfl)
  refine ⟨H.isTableOf_pd (by decide) hl, fun heq => ?_⟩
  have hbit : (s'.mem.entry d 128).testBit 0 = true := hpt ▸ or_testBit pt (by decide)
  rw [show s'.mem.entry d 128 = 0 from heq.trans hempty] at hbit
  exact absurd hbit (by decide)

/-- One mapping at 1 GiB, then a ring-3 process. -/
theorem process_writes_kernel_table :
    ∃ w₀ w w' t, pagingInitKernelMap (poolState 0x200000) = some ((), w₀.page) ∧
      exec World.step w₀ ([0x40000000].map .pagingMapMmio2mb ++ []) = some w ∧
      w.step .createUserProcess = some w' ∧
      IsTableOf w.page.mem 4 (frameOf w.page.kernelPml4) t ∧
      w'.page.mem.entry t 128 ≠ w.page.mem.entry t 128 := by
  obtain ⟨w₀, w', hinit, hboot, hrun⟩ := exists_run 0x200000
    [.pagingMapMmio2mb 0x40000000, .createUserProcess] (by unfold IsFrame; decide)
      (by decide) (by decide)
  obtain ⟨w, hmap, hrest⟩ := Option.bind_eq_some_iff.mp hrun
  obtain ⟨w₁, hcreate, hlast⟩ := Option.bind_eq_some_iff.mp hrest
  obtain rfl : w₁ = w' := Option.some.inj hlast
  obtain ⟨pd, H₀, -⟩ := hboot.holds
  obtain ⟨pds, d, H, -, hl, -, hpds⟩ := H₀.mmio (by decide) hmap
  have hempty : w.page.mem.entry d 128 = 0 := by
    rcases hpds with ⟨-, hsome⟩ | ⟨-, -, hrest⟩
    · exact absurd rfl hsome
    · exact hrest 128 (by decide) (by decide)
  obtain ⟨ht, hchanged⟩ := H.process_writes_kernel hl hempty hcreate
  refine ⟨w₀, w, w₁, d, hinit, ?_, hcreate, ht, hchanged⟩
  rw [List.append_nil, List.map_singleton, exec, hmap]
  rfl

end Creation

/-! ## What the spaces see of the kernel's mappings -/

section Seen

variable {w w' : World} {L : Layout} {x : Member}

/-- A mapping that needs a new page directory is made only while there is no space. -/
def Op.SeenByAll (w : World) : Op → Prop
  | .pagingMapMmio2mb pa => Paging.Outside pa ∧
      (w.spaces = [] ∨ present (w.page.mem.entry w.page.kernelPdpt (tableIndex pa 30)) = true)
  | .createAddressSpace => True
  | .createUserProcess => True

/-- Every space was made with the page directories the kernel has now. -/
def Layout.InStep (L : Layout) : Prop := ∀ x ∈ L.members, x.pds = L.pds

theorem Layout.InStep.create {c : Created} {sp : Space} (I : L.InStep) :
    Layout.InStep ⟨L.pds, L.members ++ [⟨c, sp, L.pds⟩]⟩ := by
  intro x hx
  rcases List.mem_append.mp hx with hold | hnew
  · exact I x hold
  · rw [List.mem_singleton] at hnew
    rw [hnew]

theorem Holds.step_inStep (H : Holds w L) (P : L.Private) (I : L.InStep) {op : Op}
    (hop : op.SeenByAll w) (h : w.step op = some w') :
    ∃ L', Holds w' L' ∧ L'.Private ∧ L'.InStep := by
  cases op with
  | pagingMapMmio2mb pa =>
    obtain ⟨hout, hseen⟩ := hop
    obtain ⟨pds, d, H', -, -, -, hpds⟩ := H.mmio (Nat.lt_trans hout.1 (by decide)) h
    rcases hpds with ⟨rfl, -⟩ | ⟨hnone, rfl, -⟩
    · exact ⟨_, H', P, I⟩
    · refine ⟨_, H', P.mmio hout (Or.inr rfl), ?_⟩
      -- the page directory is new, so there are no spaces
      have hempty : L.members = [] := by
        rcases hseen with hempty | hpresent
        · rw [H.spaces] at hempty
          exact List.map_eq_nil_iff.mp hempty
        · rw [H.pdpt _ (tableIndex_lt pa 30), link_of_none hnone] at hpresent
          exact absurd hpresent (by decide)
      intro x hx
      rw [hempty] at hx
      cases hx
  | createAddressSpace =>
    obtain ⟨c, sp, -, -, H'⟩ := H.creates h trivial fun hop => by cases hop
    exact ⟨_, H', P, I.create⟩
  | createUserProcess =>
    obtain ⟨c, sp, -, -, H'⟩ := H.creates h trivial fun _ => P
    exact ⟨_, H', P, I.create⟩

/-- **Kernel mappings are seen everywhere** in runs where a gigabyte is mapped for
the first time only before the first space is made. -/
theorem kernel_mappings_seen (r : Reach Booted World.step (fun w op => op.SeenByAll w) w) :
    ∀ c ∈ w.spaces, ∀ va, (va < 2 ^ 30 ∨ 2 ^ 31 ≤ va) →
      ∀ t, translateVa w.page.mem w.page.kernelPml4 va = some t →
        ∃ t', translateVa w.page.mem c.cr3 va = some t' ∧ t'.pa = t.pa := by
  obtain ⟨L, H, P, I⟩ : ∃ L, Holds w L ∧ L.Private ∧ L.InStep := by
    refine Reach.invariant (P := fun w => ∃ L, Holds w L ∧ L.Private ∧ L.InStep) ?_ ?_ r
    · intro w hboot
      obtain ⟨pd, H, -⟩ := hboot.holds
      exact ⟨_, H, rfl, by simp [Layout.InStep]⟩
    · rintro w op w' ⟨L, H, P, I⟩ hop h
      exact H.step_inStep P I hop h
  intro c hc va hva t ht
  obtain ⟨x, hx, rfl⟩ := H.member_of_mem hc
  rw [H.translate_kernel] at ht
  split at ht
  · rename_i hlow
    have hgig : indexAt va 30 ≠ 1 := by
      unfold indexAt
      omega
    refine ⟨t, ?_, rfl⟩
    rw [H.translate_member hx, if_pos hlow, if_neg hgig, I x hx, ht]
  · cases ht

theorem tableIndex_eq_indexAt (a shift : Nat) : tableIndex a shift = indexAt a shift :=
  tableIndex_eq a shift

/-- The kernel has what it maps. -/
theorem Holds.mapped (H : Holds w L) {pa d : Nat} (hlt : pa < 2 ^ 39) (halign : pa % 2 ^ 21 = 0)
    (hl : L.pds.lookup (tableIndex pa 30) = some d)
    (hentry : w.page.mem.entry d (tableIndex pa 21) = pa ||| 0x93) :
    translateVa w.page.mem w.page.kernelPml4 pa = some ⟨pa, supervisor⟩ := by
  rw [tableIndex_eq_indexAt] at hl hentry
  have hwalk := walk_large (r := supervisor) hentry halign
    (Nat.lt_trans hlt (by decide)) (by decide)
    (by decide) (by decide)
  rw [halign] at hwalk
  rw [H.translate_kernel, if_pos hlt, gigabyte, hl]
  exact hwalk

/-- A gigabyte mapped for the first time is missing from every space made before. -/
theorem Holds.late_mapping (H : Holds w L) {pa : Nat} (hout : Outside pa)
    (halign : pa % 2 ^ 21 = 0) (hnew : L.pds.lookup (tableIndex pa 30) = none)
    (h : w.step (.pagingMapMmio2mb pa) = some w') :
    w'.spaces = w.spaces ∧ translateVa w'.page.mem w'.page.kernelPml4 pa =
      some ⟨pa, supervisor⟩ ∧
      ∀ c ∈ w.spaces, translateVa w'.page.mem c.cr3 pa = none := by
  obtain ⟨pds, d, H', hspaces, hl, hentry, -⟩ := H.mmio (Nat.lt_trans hout.1 (by decide)) h
  refine ⟨hspaces, H'.mapped hout.1 halign hl hentry, fun c hc => ?_⟩
  obtain ⟨x, hx, rfl⟩ := H.member_of_mem hc
  rw [tableIndex_eq_indexAt] at hnew
  have hnone : x.pds.lookup (indexAt pa 30) = none := by
    cases he : x.pds.lookup (indexAt pa 30) with
    | none => rfl
    | some e =>
      have hsome := (H.stands x hx).shares _ e he
      rw [hnew] at hsome
      cases hsome
  have hgig : indexAt pa 30 ≠ 1 := tableIndex_eq_indexAt pa 30 ▸ tableIndex_ne_one hout
  rw [H'.translate_member hx, if_pos hout.1, if_neg hgig, gigabyte, hnone]

/-- An address space, then the LAPIC mapped: the space does not see it. -/
theorem lapic_mapped_late_unseen :
    ∃ w₀ w c, pagingInitKernelMap (poolState 0x200000) = some ((), w₀.page) ∧
      exec World.step w₀ [.createAddressSpace, .pagingMapMmio2mb 0xFEE00000] = some w ∧
      c ∈ w.spaces ∧
      translateVa w.page.mem w.page.kernelPml4 0xFEE00000 = some ⟨0xFEE00000, supervisor⟩ ∧
      translateVa w.page.mem c.cr3 0xFEE00000 = none := by
  obtain ⟨w₀, w, hinit, hboot, hrun⟩ := exists_run 0x200000
    [.createAddressSpace, .pagingMapMmio2mb 0xFEE00000] (by unfold IsFrame; decide)
      (by decide) (by decide)
  obtain ⟨w₁, h₁, k₁⟩ := Option.bind_eq_some_iff.mp hrun
  obtain ⟨w₂, h₂, k₂⟩ := Option.bind_eq_some_iff.mp k₁
  obtain rfl : w₂ = w := Option.some.inj k₂
  obtain ⟨pd, H₀, -⟩ := hboot.holds
  obtain ⟨c, sp, -, hspaces, H⟩ := H₀.creates h₁ trivial fun hop => by cases hop
  obtain ⟨hsame, hkernel, hspace⟩ := H.late_mapping (by decide) (by decide) rfl h₂
  have hc : c ∈ w₁.spaces := by simp [hspaces]
  exact ⟨w₀, w₂, c, hinit, hrun, hsame ▸ hc, hkernel, hspace c hc⟩

/-- The LAPIC mapped, a space of each kind made, then the IOAPIC mapped in the same
gigabyte: the spaces see it. -/
theorem kernel_mappings_seen_ioapic :
    ∃ w₀ w c t, pagingInitKernelMap (poolState 0x200000) = some ((), w₀.page) ∧
      exec World.step w₀ [.pagingMapMmio2mb 0xFEE00000, .createAddressSpace, .createUserProcess,
        .pagingMapMmio2mb 0xFEC00000] = some w ∧
      w.spaces[1]? = some c ∧ translateVa w.page.mem c.cr3 0xFEC00000 = some t ∧
      t.pa = 0xFEC00000 := by
  obtain ⟨w₀, w, hinit, hboot, hrun⟩ := exists_run 0x200000
    [.pagingMapMmio2mb 0xFEE00000, .createAddressSpace, .createUserProcess,
      .pagingMapMmio2mb 0xFEC00000]
    (by unfold IsFrame; decide) (by decide) (by decide)
  obtain ⟨w₁, h₁, k₁⟩ := Option.bind_eq_some_iff.mp hrun
  obtain ⟨w₂, h₂, k₂⟩ := Option.bind_eq_some_iff.mp k₁
  obtain ⟨w₃, h₃, k₃⟩ := Option.bind_eq_some_iff.mp k₂
  obtain ⟨w₄, h₄, k₄⟩ := Option.bind_eq_some_iff.mp k₃
  obtain rfl : w₄ = w := Option.some.inj k₄
  obtain ⟨pd, H₀, -⟩ := hboot.holds
  obtain ⟨pds, d, H₁, -, hl, -, hpds⟩ := H₀.mmio (by decide) h₁
  obtain ⟨_, _, -, -, H₂⟩ := H₁.creates h₂ trivial fun hop => by cases hop
  obtain ⟨_, _, -, -, H₃⟩ := H₂.creates h₃ trivial fun _ => by
    rcases hpds with ⟨rfl, -⟩ | ⟨-, rfl, -⟩ <;> rfl
  obtain ⟨pds', d', H₄, -, hl', hentry', -⟩ := H₃.mmio (by decide) h₄
  have hslot : w₃.page.mem.entry w₃.page.kernelPdpt 3 = d ||| 0x03 :=
    (H₃.pdpt 3 (by decide)).trans (link_of_some hl)
  have hpresent : present (w₃.page.mem.entry w₃.page.kernelPdpt 3) = true := by
    rw [hslot, present_or (H₁.pds_table 3 d hl)]
    rfl
  have g₁ : (Op.pagingMapMmio2mb 0xFEE00000).SeenByAll w₀ := by
    obtain ⟨s, -, -, -, hspaces⟩ := hboot
    exact ⟨by decide, Or.inl hspaces⟩
  have g₂ : Op.createAddressSpace.SeenByAll w₁ := trivial
  have g₃ : Op.createUserProcess.SeenByAll w₂ := trivial
  have g₄ : (Op.pagingMapMmio2mb 0xFEC00000).SeenByAll w₃ := ⟨by decide, Or.inr hpresent⟩
  have hreach : Reach Booted World.step (fun w op => op.SeenByAll w) w₄ :=
    .step (.step (.step (.step (.start hboot) g₁ h₁) g₂ h₂) g₃ h₃) g₄ h₄
  obtain ⟨c, hc, -⟩ := hboot.made_at hrun (i := 1) rfl
  obtain ⟨t, ht, hpa⟩ := kernel_mappings_seen hreach c (List.mem_of_getElem? hc) 0xFEC00000
    (by decide) _
    (H₄.mapped (by decide) (by decide) hl' hentry')
  exact ⟨w₀, w₄, c, t, hinit, hrun, hc, ht, hpa⟩

end Seen

end NekaKernel.Paging
