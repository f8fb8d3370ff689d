/-
  Paging/KernelMap.lean --- what the kernel's own tables map.

  Source: `paging_init_kernel_map` and `paging_map_mmio_2mb` in `paging64.c`.

  The kernel's tables have one entry for each page of 2 MiB below 512 GiB.  After
  `paging_init_kernel_map` those of the first gigabyte map it to itself, and every
  `paging_map_mmio_2mb` stores one entry.  The address goes into the entry as it is,
  so an address with one of the bits 13 to 20 set makes an entry that the processor
  rejects.
-/
import Mathlib.Data.List.Induction
import NekaKernel.Paging.Sharing

set_option autoImplicit false

namespace NekaKernel.Paging

open NekaKernel.Foundation NekaKernel.Kernel

/-! ## Entries -/

/-- The number of the 2 MiB page of an address below 512 GiB. -/
def pageNumber (a : Nat) : Nat := a / 2 ^ 21 % 2 ^ 18

/-- The entries after `paging_init_kernel_map`. -/
def identityPages (n : Nat) : Nat := if n < 512 then identityEntry n else 0

/-- The entries after `paging_map_mmio_2mb(pa)`. -/
def mapPage (e : Nat → Nat) (pa : Nat) : Nat → Nat :=
  Function.update e (pageNumber pa) (pa ||| 0x93)

/-- The entries after mapping the addresses one after the other. -/
def mappedPages (pas : List Nat) : Nat → Nat := pas.foldl mapPage identityPages

/-- The page directories of a layout hold the entries. -/
def Lists (w : World) (L : Layout) (e : Nat → Nat) : Prop :=
  ∀ g < 512, ∀ j < 512,
    match L.pds.lookup g with
    | some d => w.page.mem.entry d j = e (512 * g + j)
    | none => e (512 * g + j) = 0

section Steps

variable {w w' : World} {L : Layout} {e : Nat → Nat} {pa : Nat}

theorem pageNumber_eq (a : Nat) : pageNumber a = 512 * tableIndex a 30 + tableIndex a 21 := by
  rw [tableIndex_eq, tableIndex_eq]
  unfold pageNumber
  omega

theorem mem_of_lookup_pair {pds : List (Nat × Nat)} {g d : Nat} (h : pds.lookup g = some d) :
    (g, d) ∈ pds := by
  obtain ⟨l₁, l₂, hsplit, -⟩ := List.lookup_eq_some_iff.mp h
  simp [hsplit]

/-- A page directory belongs to one gigabyte. -/
theorem Holds.pds_inj (H : Holds w L) {g g' d : Nat} (h : L.pds.lookup g = some d)
    (h' : L.pds.lookup g' = some d) :
    g = g' := by
  have hnodup := H.frames_nodup
  unfold frames at hnodup
  simp only [List.nodup_cons, List.nodup_append] at hnodup
  have hpds : (L.pds.map Prod.snd).Nodup := hnodup.2.2.1
  have hpair := List.inj_on_of_nodup_map hpds (mem_of_lookup_pair h) (mem_of_lookup_pair h') rfl
  exact congrArg Prod.fst hpair

/-- What a mapping does to the page directories there are. -/
theorem Holds.mmio_keeps (H : Holds w L) (hpa : pa < 2 ^ 64)
    (h : w.step (.pagingMapMmio2mb pa) = some w') {d j : Nat} (hd : d ∈ L.pds.map Prod.snd)
    (hj : j < 512) :
    w'.page.mem.entry d j =
      if L.pds.lookup (tableIndex pa 30) = some d ∧ j = tableIndex pa 21 then pa ||| 0x93
      else w.page.mem.entry d j := by
  obtain ⟨⟨⟨⟩, s'⟩, hcall, rfl⟩ := Option.map_eq_some_iff.mp h
  have hdt : IsTable d := H.isTable (Holds.mem_pds hd)
  have hslot := H.pdpt _ (tableIndex_lt pa 30)
  cases hl : L.pds.lookup (tableIndex pa 30) with
  | some d₀ =>
    rw [link_of_some hl] at hslot
    obtain ⟨-, -, hentry⟩ := mmio_of_present hcall hpa (H.pds_table _ d₀ hl) hslot
    rw [hentry d j hdt.1 hj]
    simp only [Option.some.injEq, eq_comm]
  | none =>
    rw [link_of_none hl] at hslot
    obtain ⟨pd, hsupply, -, hentry⟩ := mmio_of_absent H.ready hcall hpa (by rw [hslot]; rfl)
    have hne : d ≠ pd := by
      rintro rfl
      exact H.notMem_supply (Holds.mem_pds hd) (hsupply ▸ List.mem_cons_self)
    have hpdpt : d ≠ w.page.kernelPdpt := (H.kernel_ne.2 d hd).2.symm
    rw [hentry d j hdt.1 hj, if_neg fun heq => hne heq.1, if_neg fun heq => hpdpt heq.1,
      if_neg hne, if_neg nofun]

/-- **Mapping.**  One entry is stored. -/
theorem Holds.lists_mmio (H : Holds w L) (hlists : Lists w L e) (hpa : pa < 2 ^ 64)
    (h : w.step (.pagingMapMmio2mb pa) = some w') :
    ∃ L', Holds w' L' ∧ Lists w' L' (mapPage e pa) ∧ (Outside pa → L.Private → L'.Private) := by
  obtain ⟨pds, d, H', -, hl, hnew, hpds⟩ := H.mmio hpa h
  refine ⟨_, H', fun g hg j hj => ?_,
    fun hout P => P.mmio hout (hpds.imp And.left fun hnew => hnew.2.1)⟩
  have hnumber : 512 * g + j = pageNumber pa ↔ g = tableIndex pa 30 ∧ j = tableIndex pa 21 := by
    have hidx := tableIndex_lt pa 21
    rw [pageNumber_eq]
    omega
  unfold mapPage
  by_cases hpage : g = tableIndex pa 30 ∧ j = tableIndex pa 21
  · obtain ⟨rfl, rfl⟩ := hpage
    rw [hl, ← pageNumber_eq, Function.update_self]
    exact hnew
  · rw [Function.update_of_ne fun heq => hpage (hnumber.mp heq)]
    have hold := hlists g hg j hj
    by_cases hgig : g = tableIndex pa 30 ∧ L.pds.lookup g = none
    · -- the page directory is new and empty but for the one entry
      obtain ⟨rfl, hnone⟩ := hgig
      rw [hnone] at hold
      rw [hl]
      rcases hpds with ⟨-, hsome⟩ | ⟨-, -, hrest⟩
      · exact absurd hnone hsome
      · exact (hrest j hj fun hidx => hpage ⟨rfl, hidx⟩).trans hold.symm
    · have hsame : pds.lookup g = L.pds.lookup g := by
        rcases hpds with ⟨rfl, -⟩ | ⟨hnone, rfl, -⟩
        · rfl
        · have hother : g ≠ tableIndex pa 30 := fun heq => hgig ⟨heq, heq ▸ hnone⟩
          rw [List.lookup_cons, beq_eq_false_iff_ne.mpr hother]
      rw [hsame]
      cases hg' : L.pds.lookup g with
      | none =>
        rw [hg'] at hold
        exact hold
      | some f =>
        rw [hg'] at hold
        dsimp only at hold ⊢
        rw [← hold, H.mmio_keeps hpa h (mem_of_lookup hg') hj]
        exact if_neg fun heq => hpage ⟨H.pds_inj hg' heq.1, heq.2⟩

/-- **Creation.**  No entry changes. -/
theorem Holds.lists_creates (H : Holds w L) (hlists : Lists w L e) {op : Op}
    (h : w.step op = some w') (hop : op.Creates)
    (hprivate : op = .createUserProcess → L.Private) :
    ∃ L', Holds w' L' ∧ Lists w' L' e ∧ L'.pds = L.pds := by
  obtain ⟨c, sp, S, -, H'⟩ := H.creates h hop hprivate
  refine ⟨_, H', fun g hg j hj => ?_, rfl⟩
  have hold := hlists g hg j hj
  dsimp only
  cases hl : L.pds.lookup g with
  | none =>
    rw [hl] at hold
    exact hold
  | some d =>
    rw [hl] at hold
    rw [← hold]
    have hin : d ∈ frames w L := Holds.mem_pds (mem_of_lookup hl)
    refine S.touches.entry (fun f hf => (S.table H.ready hf).1) (H.isTable hin).1 ?_ hj
    exact fun hown => H.notMem_supply hin (S.mem_supply hown)

theorem Booted.lists (h : Booted w) : ∃ L, Holds w L ∧ Lists w L identityPages ∧ L.Private := by
  obtain ⟨pd, H, hpd⟩ := h.holds
  refine ⟨_, H, fun g hg j hj => ?_, rfl⟩
  unfold identityPages
  by_cases hzero : g = 0
  · subst hzero
    rw [List.lookup_cons_self, if_pos (by omega)]
    dsimp only
    rw [hpd j hj, Nat.mul_zero, Nat.zero_add]
  · rw [List.lookup_cons, beq_eq_false_iff_ne.mpr hzero]
    exact if_neg (by omega)

end Steps

/-! ## Runs -/

section Runs

variable {w w₀ w' : World} {L : Layout} {e : Nat → Nat}

theorem Holds.lists_mmios {pas : List Nat} (hpas : ∀ pa ∈ pas, pa < 2 ^ 64) :
    ∀ {w : World} {L : Layout} {e : Nat → Nat}, Holds w L → Lists w L e →
      exec World.step w (pas.map .pagingMapMmio2mb) = some w' →
      ∃ L', Holds w' L' ∧ Lists w' L' (pas.foldl mapPage e) ∧
        ((∀ pa ∈ pas, Outside pa) → L.Private → L'.Private) := by
  induction pas with
  | nil =>
    intro w L e H hlists hrun
    obtain rfl := Option.some.inj hrun
    exact ⟨L, H, hlists, fun _ P => P⟩
  | cons pa pas ih =>
    intro w L e H hlists hrun
    obtain ⟨w₁, hstep, hrest⟩ := Option.bind_eq_some_iff.mp hrun
    obtain ⟨L₁, H₁, hlists₁, hprivate₁⟩ :=
      H.lists_mmio hlists (hpas pa List.mem_cons_self) hstep
    obtain ⟨L', H', hlists', hprivate'⟩ :=
      ih (fun b hb => hpas b (List.mem_cons_of_mem _ hb)) H₁ hlists₁ hrest
    refine ⟨L', H', hlists', fun hout P => hprivate'
      (fun b hb => hout b (List.mem_cons_of_mem _ hb)) ?_⟩
    exact hprivate₁ (hout pa List.mem_cons_self) P

theorem Holds.lists_calls {calls : List Op} (hcalls : ∀ c ∈ calls, c.Creates) :
    ∀ {w : World} {L : Layout}, Holds w L → Lists w L e →
      (L.Private ∨ .createUserProcess ∉ calls) →
      exec World.step w calls = some w' → ∃ L', Holds w' L' ∧ Lists w' L' e := by
  induction calls with
  | nil =>
    intro w L H hlists _ hrun
    obtain rfl := Option.some.inj hrun
    exact ⟨L, H, hlists⟩
  | cons c calls ih =>
    intro w L H hlists hcond hrun
    obtain ⟨w₁, hstep, hrest⟩ := Option.bind_eq_some_iff.mp hrun
    have hprivate : c = .createUserProcess → L.Private := by
      rintro rfl
      exact hcond.resolve_right fun hnone => hnone List.mem_cons_self
    obtain ⟨L₁, H₁, hlists₁, hpds⟩ :=
      H.lists_creates hlists hstep (hcalls c List.mem_cons_self) hprivate
    refine ih (fun b hb => hcalls b (List.mem_cons_of_mem _ hb)) H₁ hlists₁ ?_ hrest
    refine hcond.imp (fun P => ?_) fun hnone hin => hnone (List.mem_cons_of_mem _ hin)
    unfold Layout.Private
    rw [hpds]
    exact P

/-- **The kernel's entries**, after mappings and then creations, as long as no ring-3
process is made after a mapping in its own gigabyte. -/
theorem Booted.mapped {pas : List Nat} {calls : List Op} (hboot : Booted w₀)
    (hpas : ∀ pa ∈ pas, pa < 2 ^ 32) (hcalls : ∀ c ∈ calls, c.Creates)
    (hrun : exec World.step w₀ (pas.map .pagingMapMmio2mb ++ calls) = some w)
    (hcond : (∀ pa ∈ pas, ¬ (2 ^ 30 ≤ pa ∧ pa < 2 ^ 31)) ∨ .createUserProcess ∉ calls) :
    ∃ L, Holds w L ∧ Lists w L (mappedPages pas) := by
  rw [exec_append] at hrun
  obtain ⟨w₁, hmaps, hrest⟩ := Option.bind_eq_some_iff.mp hrun
  obtain ⟨L₀, H₀, hlists₀, P₀⟩ := hboot.lists
  obtain ⟨L₁, H₁, hlists₁, hprivate⟩ :=
    Holds.lists_mmios (fun pa hpa => Nat.lt_trans (hpas pa hpa) (by decide)) H₀ hlists₀ hmaps
  refine Holds.lists_calls hcalls H₁ hlists₁
    (hcond.imp_left fun hout => hprivate (fun pa hpa => ?_) P₀) hrest
  have hlow := hpas pa hpa
  have hgap := hout pa hpa
  exact ⟨by omega, by omega⟩

end Runs

/-! ## Translation -/

section Translation

variable {w : World} {L : Layout} {e : Nat → Nat} {va : Nat}

/-- Where the entry of its 2 MiB page sends an address. -/
def pageTranslation (entry va : Nat) : Option Translation :=
  if entry = 0 then none else largePage entry va 1 (supervisor.meet entry)

/-- **Translation under the kernel's tables.** -/
theorem Holds.translate_page (H : Holds w L) (hlists : Lists w L e) (va : Nat) :
    translateVa w.page.mem w.page.kernelPml4 va =
      if va < 2 ^ 39 then pageTranslation (e (pageNumber va)) va else none := by
  rw [H.translate_kernel]
  by_cases hlow : va < 2 ^ 39
  · rw [if_pos hlow, if_pos hlow]
    have hlist := hlists (indexAt va 30) (indexAt_lt va 30) (indexAt va 21) (indexAt_lt va 21)
    have hnumber : 512 * indexAt va 30 + indexAt va 21 = pageNumber va := by
      rw [pageNumber_eq, tableIndex_eq_indexAt, tableIndex_eq_indexAt]
    rw [hnumber] at hlist
    unfold gigabyte pageTranslation
    cases hl : L.pds.lookup (indexAt va 30) with
    | none =>
      rw [hl] at hlist
      exact (if_pos hlist).symm
    | some d =>
      rw [hl] at hlist
      dsimp only at hlist ⊢
      rw [← hlist]
      rcases H.leaves d (mem_of_lookup hl) _ (indexAt_lt va 21) with hzero | ⟨hpresent, hlarge⟩
      · rw [if_pos hzero]
        exact walk_absent 1 hzero
      · have hne : w.page.mem.entry d (indexAt va 21) ≠ 0 := by
          intro hzero
          rw [hzero] at hpresent
          exact absurd hpresent (by decide)
        rw [if_neg hne, walk]
        simp only [Nat.mul_one, hpresent, hlarge, if_true]
        rfl
  · rw [if_neg hlow, if_neg hlow]

theorem pageTranslation_isSome (entry va : Nat) :
    (pageTranslation entry va).isSome = true ↔ entry ≠ 0 ∧ entry / 2 ^ 13 % 2 ^ 8 = 0 := by
  unfold pageTranslation largePage
  by_cases hzero : entry = 0
  · simp [hzero]
  · rw [if_neg hzero]
    simp [hzero]

/-- The address is mapped after mapping `pas` in order: the last of them in its 2 MiB
page decides, and without one the identity map of the first gigabyte. -/
def mapsAddress (pas : List Nat) (va : Nat) : Bool :=
  match pas.reverse.find? fun pa => pa / 2 ^ 21 = va / 2 ^ 21 with
  | some pa => pa / 2 ^ 13 % 2 ^ 8 = 0
  | none => va < 2 ^ 30

/-- Low memory stays mapped, unless something was mapped over it. -/
theorem mapsAddress_low {pas : List Nat} (hlow : va < 2 ^ 30) (hpas : ∀ pa ∈ pas, 2 ^ 30 ≤ pa) :
    mapsAddress pas va = true := by
  have hnone : pas.reverse.find? (fun pa => pa / 2 ^ 21 = va / 2 ^ 21) = none := by
    rw [List.find?_eq_none]
    intro pa hpa
    have hhigh := hpas pa (List.mem_reverse.mp hpa)
    rw [decide_eq_true_iff]
    omega
  unfold mapsAddress
  rw [hnone]
  exact decide_eq_true hlow

theorem mmio_entry_div (pa : Nat) : (pa ||| 0x93) / 2 ^ 13 = pa / 2 ^ 13 := by
  rw [Nat.or_div_two_pow]
  exact Nat.or_zero _

theorem or_ne_zero (a : Nat) {b : Nat} (hb : b ≠ 0) : a ||| b ≠ 0 := by
  intro hzero
  have hle : b ≤ a ||| b := Nat.right_le_or
  omega

/-- The first gigabyte. -/
theorem identityPages_mapped (va : Nat) :
    (va < 2 ^ 39 ∧ identityPages (pageNumber va) ≠ 0 ∧
      identityPages (pageNumber va) / 2 ^ 13 % 2 ^ 8 = 0) ↔
      va < 2 ^ 30 := by
  have hzeroes : ∀ n, identityEntry n / 2 ^ 13 % 2 ^ 8 = 0 := by
    intro n
    unfold identityEntry
    rw [Nat.or_div_two_pow, Nat.shiftLeft_eq, show 0x83 / 2 ^ 13 = 0 from rfl, Nat.or_zero]
    omega
  unfold identityPages
  constructor
  · rintro ⟨hlow, hne, -⟩
    by_contra hhigh
    refine hne (if_neg ?_)
    unfold pageNumber
    omega
  · intro hlow
    have hfirst : pageNumber va < 512 := by
      unfold pageNumber
      omega
    rw [if_pos hfirst]
    exact ⟨by omega, or_ne_zero _ (by decide), hzeroes _⟩

/-- The entries and the addresses say the same. -/
theorem mappedPages_iff {pas : List Nat} (hpas : ∀ pa ∈ pas, pa < 2 ^ 32) :
    (va < 2 ^ 39 ∧ mappedPages pas (pageNumber va) ≠ 0 ∧
      mappedPages pas (pageNumber va) / 2 ^ 13 % 2 ^ 8 = 0) ↔
      mapsAddress pas va = true := by
  induction pas using List.reverseRecOn with
  | nil => exact (identityPages_mapped va).trans decide_eq_true_iff.symm
  | append_singleton pas pa ih =>
    have hpa : pa < 2 ^ 32 := hpas pa (by simp)
    have ih := ih fun b hb => hpas b (List.mem_append_left _ hb)
    have hlast : mappedPages (pas ++ [pa]) = mapPage (mappedPages pas) pa := by
      simp [mappedPages]
    unfold mapsAddress at ih ⊢
    rw [hlast, List.reverse_append, List.reverse_singleton, List.singleton_append]
    unfold mapPage
    by_cases hsame : pa / 2 ^ 21 = va / 2 ^ 21
    · have hnumber : pageNumber va = pageNumber pa := by
        unfold pageNumber
        rw [hsame]
      rw [List.find?_cons_of_pos (by simpa using hsame), hnumber, Function.update_self,
        mmio_entry_div]
      refine ⟨fun h => decide_eq_true h.2.2,
        fun h => ⟨by omega, or_ne_zero _ (by decide), of_decide_eq_true h⟩⟩
    · rw [List.find?_cons_of_neg (by simpa using hsame), ← ih]
      by_cases hlow : va < 2 ^ 39
      · rw [Function.update_of_ne]
        unfold pageNumber
        omega
      · exact ⟨fun h => absurd h.1 hlow, fun h => absurd h.1 hlow⟩

/-- **What the kernel's tables map.** -/
theorem Holds.mapped_iff {pas : List Nat} (H : Holds w L) (hlists : Lists w L (mappedPages pas))
    (hpas : ∀ pa ∈ pas, pa < 2 ^ 32) :
    (translateVa w.page.mem w.page.kernelPml4 va).isSome = true ↔
      mapsAddress pas va = true := by
  rw [← mappedPages_iff hpas, H.translate_page hlists]
  by_cases hlow : va < 2 ^ 39
  · rw [if_pos hlow, pageTranslation_isSome]
    exact ⟨fun h => ⟨hlow, h⟩, And.right⟩
  · rw [if_neg hlow]
    exact ⟨nofun, fun h => absurd h.1 hlow⟩

end Translation

end NekaKernel.Paging
