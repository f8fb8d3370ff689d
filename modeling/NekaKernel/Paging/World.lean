/-
  Paging/World.lean --- runs of the three operations on page tables.

  Source: `paging_init_kernel_map`, `paging_map_mmio_2mb`, `create_address_space`
  and `create_user_process` in `paging64.c`.

  A world is the paging state with the address spaces made so far.  `Holds w L`
  says that the tables in memory are those of the layout `L`: which gigabyte of
  the kernel has which page directory, and the frames of each space.  All frames
  of a layout are distinct, and none of them is still to be handed out, so that a
  step which writes one table leaves every other as it was.
-/
import Mathlib.Data.List.Nodup
import NekaKernel.Foundation.Run
import NekaKernel.Paging.Spaces

set_option autoImplicit false

namespace NekaKernel.Paging

open NekaKernel.Foundation NekaKernel.Kernel

/-! ## Operations -/

/-- The function that made a space. -/
inductive SpaceKind where
  | addressSpace
  | userProcess
  deriving DecidableEq, Repr

/-- A space that was made: the value returned, which is its CR3, and the frames
`alloc_frame` returned during the call, in that order. -/
structure Created where
  kind : SpaceKind
  cr3 : Nat
  taken : List Nat
  deriving DecidableEq, Repr

/-- The paging state and the spaces made so far. -/
structure World where
  page : PageState
  spaces : List Created

/-- A call. -/
inductive Op where
  | pagingMapMmio2mb (pa : Nat)
  | createAddressSpace
  | createUserProcess
  deriving DecidableEq, Repr

/-- The frames taken between two states. -/
def takenFrom (s s' : PageState) : List Nat :=
  s.supply.take (s.supply.length - s'.supply.length)

/-- One more space. -/
def World.add (w : World) (kind : SpaceKind) (made : Nat × PageState) : World :=
  ⟨made.2, w.spaces ++ [⟨kind, made.1, takenFrom w.page made.2⟩]⟩

/-- One call; `none` is a panic. -/
def World.step (w : World) : Op → Option World
  | .pagingMapMmio2mb pa =>
    (pagingMapMmio2mb pa w.page).map fun made => { w with page := made.2 }
  | .createAddressSpace => (createAddressSpace w.page).map (w.add .addressSpace)
  | .createUserProcess => (createUserProcess w.page).map (w.add .userProcess)

/-- `paging_init_kernel_map` has run, with distinct frames to come. -/
def Booted (w : World) : Prop :=
  ∃ s, (∀ f ∈ s.supply, IsTable f) ∧ s.supply.Nodup ∧
    pagingInitKernelMap s = some ((), w.page) ∧ w.spaces = []

/-! ## Layouts -/

/-- A space with its frames, and the kernel's page directories at the time it was
made. -/
structure Member where
  created : Created
  space : Space
  pds : List (Nat × Nat)

/-- Which page directory each gigabyte of the kernel has, and the spaces. -/
structure Layout where
  pds : List (Nat × Nat)
  members : List Member

/-- The entry of the kernel's PDPT for gigabyte `i`. -/
def link (pds : List (Nat × Nat)) (i : Nat) : Nat :=
  match pds.lookup i with
  | some d => d ||| 0x03
  | none => 0

/-- The tables of a space; its pages are not among them. -/
def Space.tables (sp : Space) : List Nat := [sp.pml4, sp.pdpt, sp.pd, sp.pt]

/-- The frames of the kernel's tables and of the spaces. -/
def frames (w : World) (L : Layout) : List Nat :=
  w.page.kernelPml4 :: w.page.kernelPdpt ::
    (L.pds.map Prod.snd ++ L.members.flatMap fun x => x.space.frames)

/-- What a call recorded and the space it made. -/
def Matches (c : Created) (sp : Space) : Prop :=
  c.cr3 = sp.pml4 ∧
  match c.kind with
  | .addressSpace =>
    sp.flags = 0x03 ∧ sp.pdIdx = 0 ∧ c.taken = sp.frames ∧ ∃ frame, sp.pages = [frame]
  | .userProcess => sp.flags = 0x07 ∧ sp.pdIdx = 128 ∧
      ∃ code stack, sp.pages = [code, stack] ∧
        c.taken = [sp.pml4, sp.pdpt, code, stack, sp.pd, sp.pt]

/-- A space stands in memory, and where it has an entry of the kernel's it still is
the kernel's. -/
structure Member.Stands (x : Member) (m : Mem) (pds : List (Nat × Nat)) : Prop where
  isMade : Matches x.created x.space
  built : Built m x.space (link x.pds)
  first : x.pds.lookup 0 = pds.lookup 0
  shares : ∀ i d, x.pds.lookup i = some d → pds.lookup i = some d

/-- The tables in memory are those of the layout. -/
structure Holds (w : World) (L : Layout) : Prop where
  tables : ∀ f ∈ frames w L ++ w.page.supply, IsTable f
  nodup : (frames w L ++ w.page.supply).Nodup
  pml4 : ∀ i < 512, w.page.mem.entry w.page.kernelPml4 i =
    if i = 0 then w.page.kernelPdpt ||| 0x03 else 0
  pdpt : ∀ i < 512, w.page.mem.entry w.page.kernelPdpt i = link L.pds i
  leaves : ∀ d ∈ L.pds.map Prod.snd, ∀ j < 512, w.page.mem.entry d j = 0 ∨
    ((w.page.mem.entry d j).testBit 0 = true ∧ (w.page.mem.entry d j).testBit 7 = true)
  first : L.pds.lookup 0 ≠ none
  spaces : w.spaces = L.members.map Member.created
  stands : ∀ x ∈ L.members, x.Stands w.page.mem L.pds

/-! ## Small facts -/

section Small

variable {pds : List (Nat × Nat)} {i d : Nat}

theorem mem_of_lookup (h : pds.lookup i = some d) : d ∈ pds.map Prod.snd := by
  obtain ⟨l₁, l₂, hsplit, -⟩ := List.lookup_eq_some_iff.mp h
  simp [hsplit]

theorem link_of_some (h : pds.lookup i = some d) : link pds i = d ||| 0x03 := by
  unfold link
  rw [h]

theorem link_of_none (h : pds.lookup i = none) : link pds i = 0 := by
  unfold link
  rw [h]

theorem link_cons (k d : Nat) (pds : List (Nat × Nat)) (i : Nat) :
    link ((k, d) :: pds) i = if i = k then d ||| 0x03 else link pds i := by
  unfold link
  rw [List.lookup_cons]
  by_cases h : i = k
  · rw [if_pos h, beq_iff_eq.mpr h]
  · rw [if_neg h, beq_eq_false_iff_ne.mpr h]

theorem Space.tables_subset {sp : Space} {t : Nat} (ht : t ∈ sp.tables) : t ∈ sp.frames := by
  simp only [Space.tables, List.mem_cons, List.not_mem_nil, or_false] at ht
  simp only [Space.frames, List.mem_cons]
  omega

theorem Space.pages_subset {sp : Space} {f : Nat} (h : f ∈ sp.pages) : f ∈ sp.frames := by
  unfold Space.frames
  simp [h]

/-- A space whose tables keep their entries stays built. -/
theorem Built.congr {m m' : Mem} {sp : Space} {slots : Nat → Nat} (B : Built m sp slots)
    (h : ∀ t ∈ sp.tables, ∀ i < 512, m'.entry t i = m.entry t i) : Built m' sp slots := by
  have hkeep : ∀ t ∈ sp.tables, ∀ i, i < 512 → m'.entry t i = m.entry t i := h
  unfold Space.tables at hkeep
  refine ⟨fun i hi => ?_, fun i hi => ?_, fun i hi => ?_, fun i hi => ?_⟩
  · rw [hkeep _ (by simp) i hi, B.pml4 i hi]
  · rw [hkeep _ (by simp) i hi, B.pdpt i hi]
  · rw [hkeep _ (by simp) i hi, B.pd i hi]
  · rw [hkeep _ (by simp) i hi, B.pt i hi]

theorem takenFrom_eq {s s' : PageState} {own : List Nat} (h : s.supply = own ++ s'.supply) :
    takenFrom s s' = own := by
  unfold takenFrom
  rw [h, List.length_append, Nat.add_sub_cancel, List.take_left']
  rfl

theorem inherited_eq {s : PageState} {pds : List (Nat × Nat)} {i : Nat}
    (htable : ∀ d ∈ pds.map Prod.snd, IsTable d) (h : s.mem.entry s.kernelPdpt i = link pds i) :
    inherited s i = link pds i := by
  unfold inherited
  rw [h]
  cases hl : pds.lookup i with
  | none =>
    rw [link_of_none hl]
    rfl
  | some d =>
    rw [link_of_some hl, present_or (htable d (mem_of_lookup hl))]
    rfl

end Small

/-! ## One step -/

section Step

variable {w w' : World} {L : Layout} {f g : Nat}

theorem Holds.isTable (H : Holds w L) (hf : f ∈ frames w L) : IsTable f :=
  H.tables f (List.mem_append_left _ hf)

theorem Holds.notMem_supply (H : Holds w L) (hf : f ∈ frames w L) : f ∉ w.page.supply := by
  have hdisjoint := (List.nodup_append.mp H.nodup).2.2
  exact fun hin => hdisjoint f hf f hin rfl

theorem mem_frames_pml4 (w : World) (L : Layout) :
    w.page.kernelPml4 ∈ frames w L := List.mem_cons_self

theorem mem_frames_pdpt (w : World) (L : Layout) : w.page.kernelPdpt ∈ frames w L :=
  List.mem_cons_of_mem _ List.mem_cons_self

theorem Holds.isTable_pml4 (H : Holds w L) : IsTable w.page.kernelPml4 :=
  H.isTable (mem_frames_pml4 w L)

theorem Holds.isTable_pdpt (H : Holds w L) : IsTable w.page.kernelPdpt :=
  H.isTable (mem_frames_pdpt w L)

theorem Holds.mem_pds (hf : f ∈ L.pds.map Prod.snd) : f ∈ frames w L := by
  unfold frames
  simp only [List.mem_cons, List.mem_append]
  exact Or.inr (Or.inr (Or.inl hf))

theorem Holds.mem_member {x : Member} (hx : x ∈ L.members) (hf : f ∈ x.space.frames) :
    f ∈ frames w L := by
  unfold frames
  simp only [List.mem_cons, List.mem_append]
  exact Or.inr (Or.inr (Or.inr (List.mem_flatMap.mpr ⟨x, hx, hf⟩)))

theorem Holds.ready (H : Holds w L) : Ready w.page := by
  refine ⟨fun g hg => H.tables g (List.mem_append_right _ hg), ?_, ?_, ?_⟩
  · exact (List.nodup_append.mp H.nodup).2.1
  · exact H.isTable_pdpt
  · exact H.notMem_supply (mem_frames_pdpt w L)

theorem Holds.frames_nodup (H : Holds w L) : (frames w L).Nodup :=
  (List.nodup_append.mp H.nodup).1

/-- The kernel's tables are distinct. -/
theorem Holds.kernel_ne (H : Holds w L) :
    w.page.kernelPml4 ≠ w.page.kernelPdpt ∧
      ∀ d ∈ L.pds.map Prod.snd, w.page.kernelPml4 ≠ d ∧ w.page.kernelPdpt ≠ d := by
  have hnodup := H.frames_nodup
  unfold frames at hnodup
  simp only [List.nodup_cons, List.mem_cons, List.mem_append, not_or] at hnodup
  obtain ⟨⟨hne, hpml4, -⟩, ⟨hpdpt, -⟩, -⟩ := hnodup
  refine ⟨hne, fun d hd => ⟨?_, ?_⟩⟩
  · rintro rfl
    exact hpml4 hd
  · rintro rfl
    exact hpdpt hd

/-- A member's frames are none of the kernel's. -/
theorem Holds.member_ne (H : Holds w L) {x : Member} (hx : x ∈ L.members)
    (hf : f ∈ x.space.frames) :
    f ≠ w.page.kernelPml4 ∧ f ≠ w.page.kernelPdpt ∧ ∀ d ∈ L.pds.map Prod.snd, f ≠ d := by
  have hnodup := H.frames_nodup
  have hin : f ∈ L.members.flatMap fun x => x.space.frames := List.mem_flatMap.mpr ⟨x, hx, hf⟩
  unfold frames at hnodup
  simp only [List.nodup_cons, List.mem_cons, List.mem_append, not_or,
    List.nodup_append] at hnodup
  obtain ⟨⟨-, -, hpml4⟩, ⟨-, hpdpt⟩, -, -, hpds⟩ := hnodup
  refine ⟨?_, ?_, fun d hd => (hpds d hd f hin).symm⟩
  · rintro rfl
    exact hpml4 hin
  · rintro rfl
    exact hpdpt hin

/-- The frames of the next layout are the old ones in another order. -/
theorem Holds.reorder (H : Holds w L) {l : List Nat}
    (h : l.Perm (frames w L ++ w.page.supply)) :
    (∀ f ∈ l, IsTable f) ∧ l.Nodup :=
  ⟨fun f hf => H.tables f (h.mem_iff.mp hf), h.nodup_iff.mpr H.nodup⟩

/-- A space is made of frames that were not in use. -/
theorem Holds.create (H : Holds w L) {c : Created} {sp : Space} {s' : PageState}
    {own : List Nat} (S : Since w.page s' own) (hperm : own.Perm sp.frames)
    (hmade : Matches c sp) (B : Built s'.mem sp (inherited w.page)) :
    Holds ⟨s', w.spaces ++ [c]⟩ ⟨L.pds, L.members ++ [⟨c, sp, L.pds⟩]⟩ := by
  have R := H.ready
  -- what was in use is not written
  have hkeep : ∀ f ∈ frames w L, ∀ i < 512, s'.mem.entry f i = w.page.mem.entry f i := by
    intro f hf i hi
    refine S.touches.entry (fun g hg => (S.table R hg).1) (H.isTable hf).1 ?_ hi
    exact fun hin => H.notMem_supply hf (S.mem_supply hin)
  have hinherit : ∀ i < 512, inherited w.page i = link L.pds i := by
    intro i hi
    exact inherited_eq (fun d hd => H.isTable (Holds.mem_pds hd)) (H.pdpt i hi)
  have hframes :
    (frames ⟨s', w.spaces ++ [c]⟩ ⟨L.pds, L.members ++ [⟨c, sp, L.pds⟩]⟩ ++ s'.supply).Perm
      (frames w L ++ w.page.supply) := by
    unfold frames
    rw [S.supply, S.touches.kernelPml4, S.touches.kernelPdpt, List.flatMap_append]
    simp only [List.cons_append, List.append_assoc, List.flatMap_singleton]
    refine .cons _ (.cons _ (.append_left _ (.append_left _ ?_)))
    exact hperm.symm.append_right _
  obtain ⟨htables, hnodup⟩ := H.reorder hframes
  refine ⟨htables, hnodup, fun i hi => ?_, fun i hi => ?_, fun d hd j hj => ?_, H.first, ?_, ?_⟩
  · rw [S.touches.kernelPml4, S.touches.kernelPdpt, hkeep _ (mem_frames_pml4 w L) i hi,
      H.pml4 i hi]
  · rw [S.touches.kernelPdpt, hkeep _ (mem_frames_pdpt w L) i hi, H.pdpt i hi]
  · rw [hkeep d (Holds.mem_pds hd) j hj]
    exact H.leaves d hd j hj
  · simp [H.spaces]
  · intro x hx
    rcases List.mem_append.mp hx with hold | hnew
    · have hx' := H.stands x hold
      refine ⟨hx'.isMade, hx'.built.congr fun t ht => ?_, hx'.first, hx'.shares⟩
      exact hkeep t (Holds.mem_member hold (Space.tables_subset ht))
    · rw [List.mem_singleton] at hnew
      subst hnew
      refine ⟨hmade, ⟨B.pml4, fun i hi => ?_, B.pd, B.pt⟩, rfl, fun _ _ hd => hd⟩
      rw [B.pdpt i hi, hinherit i hi]

/-- The gigabyte of `DEMO_VA` and of the ring-3 pages is not mapped by the kernel. -/
def Layout.Private (L : Layout) : Prop := L.pds.lookup 1 = none

/-- The call makes a space. -/
def Op.Creates : Op → Prop
  | .pagingMapMmio2mb _ => False
  | .createAddressSpace => True
  | .createUserProcess => True

/-- **Creation.**  Only frames taken in the call are written, and the layout has one
more member. -/
theorem Holds.creates (H : Holds w L) {op : Op} (h : w.step op = some w') (hop : op.Creates)
    (hprivate : op = .createUserProcess → L.Private) :
    ∃ c sp, Since w.page w'.page c.taken ∧ w'.spaces = w.spaces ++ [c] ∧
      Holds w' ⟨L.pds, L.members ++ [⟨c, sp, L.pds⟩]⟩ := by
  cases op with
  | pagingMapMmio2mb pa => exact hop.elim
  | createAddressSpace =>
    obtain ⟨⟨r, s'⟩, hcall, rfl⟩ := Option.map_eq_some_iff.mp h
    obtain ⟨sp, frame, hflags, hpd, hpages, rfl, S, B⟩ := createAddressSpace_spec H.ready hcall
    have htaken : takenFrom w.page s' = sp.frames := takenFrom_eq S.supply
    refine ⟨⟨.addressSpace, sp.pml4, takenFrom w.page s'⟩, sp, htaken ▸ S, rfl, ?_⟩
    exact H.create S (.refl _) ⟨rfl, hflags, hpd, htaken, frame, hpages⟩ B
  | createUserProcess =>
    obtain ⟨⟨r, s'⟩, hcall, rfl⟩ := Option.map_eq_some_iff.mp h
    have habsent : present (w.page.mem.entry w.page.kernelPdpt 1) = false := by
      rw [H.pdpt 1 (by decide), link_of_none (hprivate rfl)]
      rfl
    obtain ⟨sp, code, stack, hflags, hpd, hpages, rfl, S, B, -⟩ :=
      createUserProcess_spec H.ready hcall habsent
    have htaken : takenFrom w.page s' = [sp.pml4, sp.pdpt, code, stack, sp.pd, sp.pt] :=
      takenFrom_eq S.supply
    refine ⟨⟨.userProcess, sp.pml4, takenFrom w.page s'⟩, sp, htaken ▸ S, rfl, ?_⟩
    refine H.create S ?_ ⟨rfl, hflags, hpd, code, stack, hpages, htaken⟩ B
    unfold Space.frames
    rw [hpages]
    have hswap : ([code, stack] ++ [sp.pd, sp.pt]).Perm ([sp.pd, sp.pt] ++ [code, stack]) :=
      List.perm_append_comm
    exact .cons _ (.cons _ hswap)

theorem or_testBit (a : Nat) {flags n : Nat} (h : flags.testBit n = true) :
    (a ||| flags).testBit n = true := by
  rw [Nat.testBit_or, h, Bool.or_true]

/-- A mapping in a gigabyte that has a page directory: the layout stays. -/
theorem Holds.mmio_present (H : Holds w L) {pa d : Nat} {s' : PageState} (hpa : pa < 2 ^ 64)
    (hcall : pagingMapMmio2mb pa w.page = some ((), s'))
    (hl : L.pds.lookup (tableIndex pa 30) = some d) :
    Holds ⟨s', w.spaces⟩ L ∧ s'.mem.entry d (tableIndex pa 21) = pa ||| 0x93 := by
  have hd := mem_of_lookup hl
  have hdt : IsTable d := H.isTable (Holds.mem_pds hd)
  obtain ⟨hsupply, T, hentry⟩ :=
    mmio_of_present hcall hpa hdt (by rw [H.pdpt _ (tableIndex_lt pa 30), link_of_some hl])
  -- only the page directory changes
  have hkeep : ∀ t, IsFrame t → t ≠ d → ∀ i < 512, s'.mem.entry t i = w.page.mem.entry t i := by
    intro t ht hne i hi
    rw [hentry t i ht hi, if_neg fun heq => hne heq.1]
  have hframes : frames ⟨s', w.spaces⟩ L ++ s'.supply = frames w L ++ w.page.supply := by
    unfold frames
    rw [hsupply, T.kernelPml4, T.kernelPdpt]
  refine ⟨⟨hframes ▸ H.tables, hframes ▸ H.nodup, fun i hi => ?_, fun i hi => ?_,
    fun e he j hj => ?_, H.first, H.spaces, fun x hx => ?_⟩, ?_⟩
  · rw [T.kernelPml4, T.kernelPdpt, hkeep _ H.isTable_pml4.1 (H.kernel_ne.2 d hd).1 i hi,
      H.pml4 i hi]
  · rw [T.kernelPdpt, hkeep _ H.isTable_pdpt.1 (H.kernel_ne.2 d hd).2 i hi, H.pdpt i hi]
  · rw [hentry e j (H.isTable (Holds.mem_pds he)).1 hj]
    split
    · exact Or.inr ⟨or_testBit pa (by decide), or_testBit pa (by decide)⟩
    · exact H.leaves e he j hj
  · have X := H.stands x hx
    refine ⟨X.isMade, X.built.congr fun t ht => ?_, X.first, X.shares⟩
    have htf := Space.tables_subset ht
    exact hkeep t (H.isTable (Holds.mem_member hx htf)).1 ((H.member_ne hx htf).2.2 d hd)
  · rw [hentry d _ hdt.1 (tableIndex_lt pa 21), if_pos ⟨rfl, rfl⟩]

/-- A new slot hides none of the old ones. -/
theorem lookup_new_slot {pds : List (Nat × Nat)} {k d i : Nat} (hk : pds.lookup k = none)
    (hi : pds.lookup i ≠ none) : ((k, d) :: pds).lookup i = pds.lookup i := by
  have hother : i ≠ k := fun heq => hi (heq ▸ hk)
  rw [List.lookup_cons, beq_eq_false_iff_ne.mpr hother]

/-- A mapping in a gigabyte without one: the layout has one more page directory,
empty up to the new entry. -/
theorem Holds.mmio_absent (H : Holds w L) {pa : Nat} {s' : PageState} (hpa : pa < 2 ^ 64)
    (hcall : pagingMapMmio2mb pa w.page = some ((), s'))
    (hl : L.pds.lookup (tableIndex pa 30) = none) :
    ∃ pd, Holds ⟨s', w.spaces⟩ ⟨(tableIndex pa 30, pd) :: L.pds, L.members⟩ ∧
      s'.mem.entry pd (tableIndex pa 21) = pa ||| 0x93 ∧
      ∀ j < 512, j ≠ tableIndex pa 21 → s'.mem.entry pd j = 0 := by
  obtain ⟨pd, hsupply, T, hentry⟩ := mmio_of_absent H.ready hcall hpa (by
    rw [H.pdpt _ (tableIndex_lt pa 30), link_of_none hl]
    rfl)
  have hpd : pd ∈ w.page.supply := hsupply ▸ List.mem_cons_self
  have hpdt : IsTable pd := H.ready.tables pd hpd
  have hne : ∀ t ∈ frames w L, t ≠ pd := by
    rintro t ht rfl
    exact H.notMem_supply ht hpd
  have hpdpt : w.page.kernelPdpt ≠ pd := hne _ (mem_frames_pdpt w L)
  have hkeep : ∀ t ∈ frames w L, t ≠ w.page.kernelPdpt → ∀ i < 512,
      s'.mem.entry t i = w.page.mem.entry t i := by
    intro t ht hother i hi
    rw [hentry t i (H.isTable ht).1 hi, if_neg fun heq => hne t ht heq.1,
      if_neg fun heq => hother heq.1, if_neg (hne t ht)]
  have hnew : s'.mem.entry pd (tableIndex pa 21) = pa ||| 0x93 := by
    rw [hentry pd _ hpdt.1 (tableIndex_lt pa 21), if_pos ⟨rfl, rfl⟩]
  have hrest : ∀ j < 512, j ≠ tableIndex pa 21 → s'.mem.entry pd j = 0 := by
    intro j hj hother
    rw [hentry pd j hpdt.1 hj, if_neg fun heq => hother heq.2,
      if_neg fun heq => hpdpt heq.1.symm, if_pos rfl]
  have hframes :
    (frames ⟨s', w.spaces⟩ ⟨(tableIndex pa 30, pd) :: L.pds, L.members⟩ ++ s'.supply).Perm
      (frames w L ++ w.page.supply) := by
    unfold frames
    rw [hsupply, T.kernelPml4, T.kernelPdpt]
    simp only [List.cons_append, List.map_cons]
    refine .cons _ (.cons _ ?_)
    exact List.perm_middle.symm
  obtain ⟨htables, hnodup⟩ := H.reorder hframes
  refine ⟨pd, ⟨htables, hnodup, fun i hi => ?_, fun i hi => ?_, fun e he j hj => ?_,
    ?_, H.spaces, fun x hx => ?_⟩, hnew, hrest⟩
  · rw [T.kernelPml4, T.kernelPdpt, hkeep _ (mem_frames_pml4 w L) H.kernel_ne.1 i hi,
      H.pml4 i hi]
  · rw [T.kernelPdpt, hentry _ i H.isTable_pdpt.1 hi, link_cons, H.pdpt i hi,
      if_neg fun heq => hpdpt heq.1]
    simp [hpdpt]
  · rw [List.map_cons, List.mem_cons] at he
    rcases he with rfl | he
    · by_cases hj' : j = tableIndex pa 21
      · rw [hj', hnew]
        exact Or.inr ⟨or_testBit pa (by decide), or_testBit pa (by decide)⟩
      · exact Or.inl (hrest j hj hj')
    · rw [hkeep e (Holds.mem_pds he) (H.kernel_ne.2 e he).2.symm j hj]
      exact H.leaves e he j hj
  · rw [lookup_new_slot hl H.first]
    exact H.first
  · have X := H.stands x hx
    refine ⟨X.isMade, X.built.congr fun t ht => ?_, ?_, fun i d hd => ?_⟩
    · have htf := Space.tables_subset ht
      exact hkeep t (Holds.mem_member hx htf) (H.member_ne hx htf).2.1
    · rw [lookup_new_slot hl H.first, X.first]
    · have hold := X.shares i d hd
      rw [lookup_new_slot hl (by simp [hold]), hold]

/-- **Mapping.**  A gigabyte that has no page directory gets one; no member changes. -/
theorem Holds.mmio (H : Holds w L) {pa : Nat} (hpa : pa < 2 ^ 64)
    (h : w.step (.pagingMapMmio2mb pa) = some w') :
    ∃ pds d, Holds w' ⟨pds, L.members⟩ ∧ w'.spaces = w.spaces ∧
      pds.lookup (tableIndex pa 30) = some d ∧ w'.page.mem.entry d (tableIndex pa 21) =
        pa ||| 0x93 ∧
      ((pds = L.pds ∧ L.pds.lookup (tableIndex pa 30) ≠ none) ∨
        (L.pds.lookup (tableIndex pa 30) = none ∧ pds = (tableIndex pa 30, d) :: L.pds ∧
          ∀ j < 512, j ≠ tableIndex pa 21 → w'.page.mem.entry d j = 0)) := by
  obtain ⟨⟨⟨⟩, s'⟩, hcall, rfl⟩ := Option.map_eq_some_iff.mp h
  cases hl : L.pds.lookup (tableIndex pa 30) with
  | some d =>
    obtain ⟨H', hnew⟩ := H.mmio_present hpa hcall hl
    exact ⟨L.pds, d, H', rfl, hl, hnew, Or.inl ⟨rfl, by simp⟩⟩
  | none =>
    obtain ⟨pd, H', hnew, hrest⟩ := H.mmio_absent hpa hcall hl
    exact ⟨_, pd, H', rfl, by simp, hnew, Or.inr ⟨rfl, rfl, hrest⟩⟩

/-- The tables after `paging_init_kernel_map`. -/
theorem Booted.holds (h : Booted w) : ∃ pd, Holds w ⟨[(0, pd)], []⟩ ∧
    ∀ i < 512, w.page.mem.entry pd i = identityEntry i := by
  obtain ⟨s, htable, hnodup, hinit, hspaces⟩ := h
  obtain ⟨pd, hsupply, -, hpml4, hpdpt, hpd⟩ := pagingInitKernelMap_spec htable hnodup hinit
  have hframes : frames w ⟨[(0, pd)], []⟩ ++ w.page.supply = s.supply := by
    rw [hsupply]
    rfl
  refine ⟨pd, ⟨?_, ?_, hpml4, fun i hi => ?_, fun d hd j hj => ?_, by simp, hspaces, by simp⟩,
    hpd⟩
  · rw [hframes]
    exact htable
  · rw [hframes]
    exact hnodup
  · rw [hpdpt i hi, link_cons]
    rfl
  · rw [List.map_singleton, List.mem_singleton] at hd
    rw [hd, hpd j hj]
    exact Or.inr ⟨or_testBit _ (by decide), or_testBit _ (by decide)⟩

end Step

/-! ## Runs -/

section Runs

variable {w w' : World} {L : Layout}

/-- An address that `paging_map_mmio_2mb` is given: below 512 GiB and not in the
gigabyte of `DEMO_VA`. -/
def Outside (pa : Nat) : Prop := pa < 2 ^ 39 ∧ (pa < 2 ^ 30 ∨ 2 ^ 31 ≤ pa)

instance (pa : Nat) : Decidable (Outside pa) := inferInstanceAs (Decidable (_ ∧ _))

/-- Mappings are made outside that gigabyte. -/
def Op.Outside : Op → Prop
  | .pagingMapMmio2mb pa => Paging.Outside pa
  | .createAddressSpace => True
  | .createUserProcess => True

theorem tableIndex_ne_one {pa : Nat} (h : Outside pa) : tableIndex pa 30 ≠ 1 := by
  obtain ⟨hlt, hout⟩ := h
  rw [tableIndex_eq]
  omega

theorem Layout.Private.mmio {pds : List (Nat × Nat)} {pa d : Nat} (P : L.Private)
    (h : Outside pa) (hpds : pds = L.pds ∨ pds = (tableIndex pa 30, d) :: L.pds) :
    Layout.Private ⟨pds, L.members⟩ := by
  unfold Layout.Private
  rcases hpds with rfl | rfl
  · exact P
  · rw [List.lookup_cons, beq_eq_false_iff_ne.mpr (tableIndex_ne_one h).symm]
    exact P

/-- A step keeps a layout, and keeps the gigabyte private when it maps outside it. -/
theorem Holds.step (H : Holds w L) (P : L.Private) {op : Op} (hop : op.Outside)
    (h : w.step op = some w') : ∃ L', Holds w' L' ∧ L'.Private := by
  cases op with
  | pagingMapMmio2mb pa =>
    obtain ⟨pds, d, H', -, -, -, hpds⟩ := H.mmio (Nat.lt_trans hop.1 (by decide)) h
    exact ⟨_, H', P.mmio hop (hpds.imp And.left fun hnew => hnew.2.1)⟩
  | createAddressSpace =>
    obtain ⟨c, sp, -, -, H'⟩ := H.creates h trivial fun hop => by cases hop
    exact ⟨_, H', P⟩
  | createUserProcess =>
    obtain ⟨c, sp, -, -, H'⟩ := H.creates h trivial fun _ => P
    exact ⟨_, H', P⟩

/-- **The invariant of every run.** -/
theorem reach_holds (r : Reach Booted World.step (fun _ op => op.Outside) w) :
    ∃ L, Holds w L ∧ L.Private := by
  refine Reach.invariant (P := fun w => ∃ L, Holds w L ∧ L.Private) ?_ ?_ r
  · intro w hboot
    obtain ⟨pd, H, -⟩ := hboot.holds
    exact ⟨_, H, rfl⟩
  · rintro w op w' ⟨L, H, P⟩ hop h
    exact H.step P hop h

/-- With ten frames for each call, calls return. -/
theorem exists_exec (ops : List Op) : ∀ (w : World), 10 * ops.length ≤ w.page.supply.length →
    ∃ w', exec World.step w ops = some w' := by
  induction ops with
  | nil =>
    intro w _
    exact ⟨w, rfl⟩
  | cons op ops ih =>
    intro w hroom
    rw [List.length_cons] at hroom
    have hstep : ∃ w₁, w.step op = some w₁ ∧
        w.page.supply.length ≤ w₁.page.supply.length + 10 := by
      cases op with
      | pagingMapMmio2mb pa =>
        obtain ⟨r, s', h, hlen⟩ := returns_pagingMapMmio2mb pa w.page (by omega)
        exact ⟨_, Option.map_eq_some_iff.mpr ⟨_, h, rfl⟩, Nat.le_trans hlen (by simp)⟩
      | createAddressSpace =>
        obtain ⟨r, s', h, hlen⟩ := returns_createAddressSpace w.page (by omega)
        exact ⟨_, Option.map_eq_some_iff.mpr ⟨_, h, rfl⟩,
          Nat.le_trans hlen (by simp [World.add])⟩
      | createUserProcess =>
        obtain ⟨r, s', h, hlen⟩ := returns_createUserProcess w.page (by omega)
        exact ⟨_, Option.map_eq_some_iff.mpr ⟨_, h, rfl⟩,
          Nat.le_trans hlen (by simp [World.add])⟩
    obtain ⟨w₁, h₁, hlen⟩ := hstep
    obtain ⟨w', h'⟩ := ih w₁ (by omega)
    exact ⟨w', by rw [exec, h₁]; exact h'⟩

/-- The kind of space a call makes. -/
def Op.makes : Op → Option SpaceKind
  | .pagingMapMmio2mb _ => none
  | .createAddressSpace => some .addressSpace
  | .createUserProcess => some .userProcess

/-- A run makes one space for each call that makes one, in order. -/
theorem exec_kinds (ops : List Op) : ∀ {w w' : World}, exec World.step w ops = some w' →
    w'.spaces.map Created.kind = w.spaces.map Created.kind ++ ops.filterMap Op.makes := by
  induction ops with
  | nil =>
    intro w w' h
    cases h
    simp
  | cons op ops ih =>
    intro w w' h
    obtain ⟨w₁, h₁, hrest⟩ := Option.bind_eq_some_iff.mp h
    rw [ih hrest]
    cases op with
    | pagingMapMmio2mb pa =>
      obtain ⟨made, -, rfl⟩ := Option.map_eq_some_iff.mp h₁
      rfl
    | createAddressSpace =>
      obtain ⟨made, -, rfl⟩ := Option.map_eq_some_iff.mp h₁
      simp [Op.makes, World.add]
    | createUserProcess =>
      obtain ⟨made, -, rfl⟩ := Option.map_eq_some_iff.mp h₁
      simp [Op.makes, World.add]

/-- `POOL_FRAMES`. -/
def poolCount : Nat := 64

/-- `frame_pool` at `base`. -/
def poolFrames (base : Nat) : List Nat := (List.range poolCount).map fun i => base + 4096 * i

/-- Memory before `paging_init_kernel_map`, with the pool at `base`. -/
def poolState (base : Nat) : PageState := ⟨fun _ => 0, poolFrames base, 0, 0, 0, []⟩

theorem poolFrames_table {base f : Nat} (hbase : IsFrame base) (hlt : base < 2 ^ 51)
    (hf : f ∈ poolFrames base) : IsTable f := by
  obtain ⟨i, hi, rfl⟩ := List.mem_map.mp hf
  rw [List.mem_range] at hi
  unfold poolCount at hi
  unfold IsFrame at hbase
  unfold IsTable IsFrame
  omega

theorem poolFrames_nodup (base : Nat) : (poolFrames base).Nodup := by
  refine List.Nodup.map ?_ List.nodup_range
  intro i j h
  dsimp only at h
  omega

/-- The pool is enough for `paging_init_kernel_map` and six calls. -/
theorem exists_run (base : Nat) (ops : List Op) (hbase : IsFrame base) (hlt : base < 2 ^ 51)
    (hlen : ops.length ≤ 6) :
    ∃ w₀ w, pagingInitKernelMap (poolState base) = some ((), w₀.page) ∧ Booted w₀ ∧
      exec World.step w₀ ops = some w := by
  have hsupply : (poolState base).supply.length = 64 := by
    simp [poolState, poolFrames, poolCount]
  obtain ⟨⟨⟩, s, h, hroom⟩ := returns_pagingInitKernelMap (poolState base) (by omega)
  obtain ⟨w, hw⟩ := exists_exec ops ⟨s, []⟩ (by dsimp only; omega)
  refine ⟨⟨s, []⟩, w, h, ?_, hw⟩
  exact ⟨poolState base, fun f hf => poolFrames_table hbase hlt hf,
    poolFrames_nodup base, h, rfl⟩

/-- Executing calls that map outside the private gigabyte is a run. -/
theorem Booted.reach {w₀ : World} (hboot : Booted w₀) {ops : List Op}
    (hops : ∀ op ∈ ops, op.Outside) (h : exec World.step w₀ ops = some w) :
    Reach Booted World.step (fun _ op => op.Outside) w :=
  Reach.exec (.start hboot) (fun _ _ op hop _ => hops op (List.mem_of_getElem? hop)) h

/-- The space made by the call with number `i` among those that make one. -/
theorem Booted.made_at {w₀ : World} (hboot : Booted w₀) {ops : List Op}
    (h : exec World.step w₀ ops = some w) {i : Nat} {kind : SpaceKind}
    (hi : (ops.filterMap Op.makes)[i]? = some kind) :
    ∃ c, w.spaces[i]? = some c ∧ c.kind = kind := by
  obtain ⟨s, -, -, -, hspaces⟩ := hboot
  have hkinds := exec_kinds ops h
  rw [hspaces, List.map_nil, List.nil_append] at hkinds
  rw [← hkinds, List.getElem?_map] at hi
  exact Option.map_eq_some_iff.mp hi

end Runs

end NekaKernel.Paging
