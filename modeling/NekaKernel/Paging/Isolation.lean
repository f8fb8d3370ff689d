/-
  Paging/Isolation.lean --- what the address spaces translate.

  Source: `paging64.c`; `DEMO_VA` is read and written by `write_signature` and
  `verify_signature` in `main64.c`.

  The first part computes the walk under the kernel's tables and under those of
  each space.  The results after it are about every world that calls reach: which
  addresses a space shares with the kernel, what backs its private pages, and what
  ring 3 can reach.
-/
import Mathlib.Data.List.Pairwise
import Mathlib.Data.Set.Basic
import NekaKernel.Foundation.Walk
import NekaKernel.Paging.World

set_option autoImplicit false

namespace NekaKernel.Paging

open NekaKernel.Foundation NekaKernel.Kernel

/-! ## Walks -/

/-- Rights under entries without the user bit. -/
def supervisor : Rights := ⟨false, true⟩

/-- The walk below the kernel's PDPT. -/
def gigabyte (m : Mem) (pds : List (Nat × Nat)) (va : Nat) : Option Translation :=
  match pds.lookup (indexAt va 30) with
  | some d => walk m va 2 d supervisor
  | none => none

/-- The walk below the private page directory of a space. -/
def privatePage (sp : Space) (va : Nat) : Option Translation :=
  if indexAt va 21 = sp.pdIdx then
    match sp.pages[indexAt va 12]? with
    | some f => some ⟨f + va % 2 ^ 12, Rights.all.meet sp.flags⟩
    | none => none
  else none

section Walks

variable {m : Mem} {va level table f flags : Nat} {pds : List (Nat × Nat)} {r : Rights}

/-- The two sets of flags entries to tables have. -/
def TableFlags (flags : Nat) : Prop := flags = 0x03 ∨ flags = 0x07

theorem walk_table (level : Nat) (hflags : TableFlags flags) (hf : IsTable f)
    (he : m.entry table (indexAt va (12 + 9 * (level + 1))) = f ||| flags) :
    walk m va (level + 2) table r = walk m va (level + 1) f (r.meet flags) := by
  rcases hflags with rfl | rfl
    <;> exact walk_link level he hf.1 hf.2 (by decide) (by decide) (by decide)

/-- The walk at a PDPT that has the kernel's entry for the address. -/
theorem walk_gigabyte (htable : ∀ i d, pds.lookup i = some d → IsTable d)
    (he : m.entry table (indexAt va 30) = link pds (indexAt va 30))
    (hr : r.meet 0x03 = supervisor) : walk m va 3 table r = gigabyte m pds va := by
  unfold gigabyte
  cases hl : pds.lookup (indexAt va 30) with
  | none =>
    rw [link_of_none hl] at he
    exact walk_absent 2 he
  | some d =>
    rw [link_of_some hl] at he
    rw [walk_table 1 (Or.inl rfl) (htable _ d hl) he, hr]

/-- Nothing the kernel maps is open to ring 3. -/
theorem gigabyte_supervisor {t : Translation} (h : gigabyte m pds va = some t) :
    t.rights.user = false := by
  unfold gigabyte at h
  split at h
  · cases huser : t.rights.user with
    | false => rfl
    | true => exact absurd (walk_user h huser) (by decide)
  · exact absurd h (by simp)

end Walks

section Translations

variable {w : World} {L : Layout} {x : Member} {va : Nat}

theorem Holds.pds_table (H : Holds w L) (i d : Nat) (h : L.pds.lookup i = some d) : IsTable d :=
  H.isTable (Holds.mem_pds (mem_of_lookup h))

/-- A PML4 whose only entry is entry 0 translates the first 512 GiB. -/
theorem translate_root {m : Mem} {pml4 pdpt flags : Nat} (hpml4 : IsTable pml4)
    (hpdpt : IsTable pdpt) (hflags : TableFlags flags)
    (h : ∀ i < 512, m.entry pml4 i = if i = 0 then pdpt ||| flags else 0) (va : Nat) :
    translateVa m pml4 va =
      if va < 2 ^ 39 then walk m va 3 pdpt (Rights.all.meet flags) else none := by
  have hroot := h _ (indexAt_lt va 39)
  have hlow := canonical_low_iff va
  unfold translateVa
  rw [frameOf_self hpml4.1 hpml4.2]
  by_cases hzero : indexAt va 39 = 0
  · rw [if_pos hzero] at hroot
    rw [walk_table 2 hflags hpdpt hroot]
    by_cases hva : va < 2 ^ 39
    · rw [if_pos hva, if_pos (hlow.mpr hva).1]
    · rw [if_neg hva, if_neg fun hc => hva (hlow.mp ⟨hc, hzero⟩)]
  · rw [if_neg hzero] at hroot
    rw [walk_absent 3 hroot, ite_self, if_neg fun hva => hzero (hlow.mpr hva).2]

/-- Translation under `kernel_pml4`. -/
theorem Holds.translate_kernel (H : Holds w L) (va : Nat) :
    translateVa w.page.mem w.page.kernelPml4 va =
      if va < 2 ^ 39 then gigabyte w.page.mem L.pds va else none := by
  rw [translate_root H.isTable_pml4 H.isTable_pdpt (Or.inl rfl) H.pml4 va,
    walk_gigabyte H.pds_table (H.pdpt _ (indexAt_lt va 30)) rfl]

theorem Matches.flags {c : Created} {sp : Space} (h : Matches c sp) : TableFlags sp.flags := by
  unfold Matches at h
  cases hk : c.kind <;> rw [hk] at h
  · exact Or.inl h.2.1
  · exact Or.inr h.2.1

theorem Holds.member_table (H : Holds w L) (hx : x ∈ L.members) {f : Nat}
    (hf : f ∈ x.space.frames) :
    IsTable f := H.isTable (Holds.mem_member hx hf)

/-- The walk below the private page directory. -/
theorem Holds.walk_private (H : Holds w L) (hx : x ∈ L.members) (va : Nat) :
    walk w.page.mem va 2 x.space.pd (Rights.all.meet x.space.flags) =
      privatePage x.space va := by
  have X := H.stands x hx
  have hflags := X.isMade.flags
  have hpd := X.built.pd _ (indexAt_lt va 21)
  have hpt := X.built.pt _ (indexAt_lt va 12)
  have hpage : ∀ f ∈ x.space.pages, IsTable f :=
    fun f hf => H.member_table hx (Space.pages_subset hf)
  unfold privatePage
  by_cases hidx : indexAt va 21 = x.space.pdIdx
  · rw [if_pos hidx] at hpd ⊢
    rw [walk_table 0 hflags (H.member_table hx (by simp [Space.frames])) hpd, Rights.meet_meet]
    cases hf : x.space.pages[indexAt va 12]? with
    | none =>
      rw [hf] at hpt
      exact walk_absent 0 hpt
    | some f =>
      rw [hf] at hpt
      have hft := hpage f (List.mem_of_getElem? hf)
      rcases hflags with h | h <;> rw [h] at hpt ⊢
        <;> exact walk_page hpt hft.1 hft.2 (by decide) (by decide)
  · rw [if_neg hidx] at hpd ⊢
    exact walk_absent 1 hpd

/-- Translation in a space that was made. -/
theorem Holds.translate_member (H : Holds w L) (hx : x ∈ L.members) (va : Nat) :
    translateVa w.page.mem x.created.cr3 va =
      if va < 2 ^ 39 then
        if indexAt va 30 = 1 then privatePage x.space va else gigabyte w.page.mem x.pds va
      else none := by
  have X := H.stands x hx
  have hflags := X.isMade.flags
  rw [X.isMade.1, translate_root (H.member_table hx (by simp [Space.frames]))
    (H.member_table hx (by simp [Space.frames])) hflags X.built.pml4 va]
  have hpdpt := X.built.pdpt _ (indexAt_lt va 30)
  by_cases hidx : indexAt va 30 = 1
  · rw [if_pos hidx] at hpdpt ⊢
    rw [walk_table 1 hflags (H.member_table hx (by simp [Space.frames])) hpdpt,
      Rights.meet_meet, H.walk_private hx va]
  · rw [if_neg hidx] at hpdpt ⊢
    rw [walk_gigabyte ?_ hpdpt ?_]
    · exact fun i d hd => H.pds_table i d (X.shares i d hd)
    · rcases hflags with h | h <;> rw [h] <;> rfl

/-! ## Tables -/

/-- The tables below a PDPT that has entries of the kernel's. -/
theorem Holds.isTableOf_slot (H : Holds w L) {i f : Nat} {pds : List (Nat × Nat)}
    (hshares : ∀ i d, pds.lookup i = some d → L.pds.lookup i = some d) (hne : link pds i ≠ 0)
    (h : IsTableOf w.page.mem 2 (frameOf (link pds i)) f) : f ∈ L.pds.map Prod.snd := by
  cases hl : pds.lookup i with
  | none => exact absurd (link_of_none hl) hne
  | some d =>
    have hd := hshares i d hl
    have hdt := H.pds_table i d hd
    rw [link_of_some hl, frameOf_or hdt.1 hdt.2 (by decide)] at h
    have halone := h.alone fun j hj => (H.leaves d (mem_of_lookup hd) j hj).imp_right And.right
    rw [halone]
    exact mem_of_lookup hd

/-- The tables `kernel_pml4` reaches. -/
theorem Holds.isTableOf_kernel (H : Holds w L) {f : Nat}
    (h : IsTableOf w.page.mem 4 (frameOf w.page.kernelPml4) f) :
    f = w.page.kernelPml4 ∨ f = w.page.kernelPdpt ∨ f ∈ L.pds.map Prod.snd := by
  have hpml4 := H.isTable_pml4
  have hpdpt := H.isTable_pdpt
  rw [frameOf_self hpml4.1 hpml4.2] at h
  rcases h.below with hself | ⟨i, hi, hne, -, h₁⟩
  · exact Or.inl hself
  rw [H.pml4 i hi] at hne h₁
  split at h₁
  · rw [frameOf_or hpdpt.1 hpdpt.2 (by decide)] at h₁
    rcases h₁.below with hself | ⟨j, hj, hne₁, -, h₂⟩
    · exact Or.inr (Or.inl hself)
    · rw [H.pdpt j hj] at hne₁ h₂
      exact Or.inr (Or.inr (H.isTableOf_slot (fun _ _ hd => hd) hne₁ h₂))
  · rename_i hzero
    exact absurd (if_neg hzero) hne

/-- The tables a space reaches. -/
theorem Holds.isTableOf_member (H : Holds w L) (hx : x ∈ L.members) {f : Nat}
    (h : IsTableOf w.page.mem 4 (frameOf x.created.cr3) f) :
    f ∈ x.space.tables ∨ f ∈ L.pds.map Prod.snd := by
  have X := H.stands x hx
  have hflags : x.space.flags < 4096 := by
    rcases X.isMade.flags with h | h <;> rw [h] <;> decide
  have htable : ∀ t ∈ x.space.tables, IsTable t :=
    fun t ht => H.member_table hx (Space.tables_subset ht)
  have hlink : ∀ t ∈ x.space.tables, frameOf (t ||| x.space.flags) = t :=
    fun t ht => frameOf_or (htable t ht).1 (htable t ht).2 hflags
  unfold Space.tables at htable hlink ⊢
  have hpml4 := htable x.space.pml4 (by simp)
  rw [X.isMade.1, frameOf_self hpml4.1 hpml4.2] at h
  rcases h.below with rfl | ⟨i, hi, hne, -, h₁⟩
  · simp
  rw [X.built.pml4 i hi] at hne h₁
  split at h₁
  · rw [hlink _ (by simp)] at h₁
    rcases h₁.below with rfl | ⟨j, hj, hne₁, -, h₂⟩
    · simp
    rw [X.built.pdpt j hj] at hne₁ h₂
    split at h₂
    · rw [hlink _ (by simp)] at h₂
      rcases h₂.below with rfl | ⟨k, hk, hne₂, -, h₃⟩
      · simp
      rw [X.built.pd k hk] at hne₂ h₃
      split at h₃
      · rw [hlink _ (by simp)] at h₃
        rcases h₃.below with rfl | ⟨_, _, _, _, h₄⟩
        · simp
        · exact h₄.elim
      · rename_i hzero
        exact absurd (if_neg hzero) hne₂
    · rename_i hother
      rw [if_neg hother] at hne₁
      exact Or.inr (H.isTableOf_slot X.shares hne₁ h₂)
  · rename_i hzero
    exact absurd (if_neg hzero) hne

/-- `kernel_pml4` and the spaces made so far. -/
def World.roots (w : World) : List Nat := w.page.kernelPml4 :: w.spaces.map Created.cr3

/-- The tables of the kernel and of all spaces. -/
theorem Holds.isTableOf_root (H : Holds w L) {f root : Nat} (hroot : root ∈ w.roots)
    (h : IsTableOf w.page.mem 4 (frameOf root) f) :
    f = w.page.kernelPml4 ∨ f = w.page.kernelPdpt ∨ f ∈ L.pds.map Prod.snd ∨
      ∃ y ∈ L.members, f ∈ y.space.tables := by
  unfold World.roots at hroot
  rw [H.spaces, List.map_map, List.mem_cons] at hroot
  rcases hroot with rfl | hmem
  · rcases H.isTableOf_kernel h with h | h | h
    · exact Or.inl h
    · exact Or.inr (Or.inl h)
    · exact Or.inr (Or.inr (Or.inl h))
  · obtain ⟨y, hy, rfl⟩ := List.mem_map.mp hmem
    rcases H.isTableOf_member hy h with h | h
    · exact Or.inr (Or.inr (Or.inr ⟨y, hy, h⟩))
    · exact Or.inr (Or.inr (Or.inl h))

theorem Holds.isTableOf_mem (H : Holds w L) {f root : Nat} (hroot : root ∈ w.roots)
    (h : IsTableOf w.page.mem 4 (frameOf root) f) : f ∈ frames w L := by
  rcases H.isTableOf_root hroot h with rfl | rfl | hpd | ⟨y, hy, ht⟩
  · exact mem_frames_pml4 w L
  · exact mem_frames_pdpt w L
  · exact Holds.mem_pds hpd
  · exact Holds.mem_member hy (Space.tables_subset ht)

/-! ## Frames of different spaces -/

theorem Holds.members_nodup (H : Holds w L) :
    (∀ x ∈ L.members, x.space.frames.Nodup) ∧
      L.members.Pairwise fun x y => ∀ f ∈ x.space.frames, f ∉ y.space.frames := by
  have hnodup := H.frames_nodup
  unfold frames at hnodup
  rw [List.nodup_cons, List.nodup_cons, List.nodup_append] at hnodup
  have hmembers := List.nodup_flatMap.mp hnodup.2.2.2.1
  exact ⟨hmembers.1, hmembers.2.imp fun hdisjoint f hf hf' => hdisjoint hf hf'⟩

/-- No page of a space is a table of any. -/
theorem Holds.page_notMem_tables (H : Holds w L) {y : Member} {f : Nat} (hx : x ∈ L.members)
    (hy : y ∈ L.members) (hf : f ∈ x.space.pages) : f ∉ y.space.tables := by
  obtain ⟨hnodup, hpairwise⟩ := H.members_nodup
  have hin : f ∈ x.space.frames := Space.pages_subset hf
  intro ht
  by_cases heq : x = y
  · subst heq
    have hself := hnodup x hx
    have hsplit : x.space.frames = x.space.tables ++ x.space.pages := rfl
    rw [hsplit, List.nodup_append] at hself
    exact hself.2.2 f ht f hf rfl
  · have hsymm : Std.Symm fun x y : Member => ∀ f ∈ x.space.frames, f ∉ y.space.frames :=
      ⟨fun x y h f hf hf' => h f hf' hf⟩
    exact hpairwise.forall hx hy heq f hin (Space.tables_subset ht)

/-- No page of a space is a table of the kernel or of a space. -/
theorem Holds.page_not_table (H : Holds w L) (hx : x ∈ L.members) {f root : Nat}
    (hf : f ∈ x.space.pages) (hroot : root ∈ w.roots) :
    ¬ IsTableOf w.page.mem 4 (frameOf root) f := by
  intro h
  have hin : f ∈ x.space.frames := Space.pages_subset hf
  obtain ⟨hpml4, hpdpt, hpds⟩ := H.member_ne hx hin
  rcases H.isTableOf_root hroot h with h | h | h | ⟨y, hy, ht⟩
  · exact hpml4 h
  · exact hpdpt h
  · exact hpds f h rfl
  · exact H.page_notMem_tables hx hy hf ht

/-- Spaces made by different calls have no frame in common. -/
theorem Holds.disjoint_at (H : Holds w L) {y : Member} {i j : Nat} (hi : L.members[i]? = some x)
    (hj : L.members[j]? = some y) (hne : i ≠ j) : ∀ f ∈ x.space.frames, f ∉ y.space.frames := by
  have hpairwise := List.pairwise_iff_getElem.mp H.members_nodup.2
  obtain ⟨hilt, rfl⟩ := List.getElem?_eq_some_iff.mp hi
  obtain ⟨hjlt, rfl⟩ := List.getElem?_eq_some_iff.mp hj
  rcases Nat.lt_or_gt_of_ne hne with h | h
  · exact hpairwise i j hilt hjlt h
  · exact fun f hf hf' => hpairwise j i hjlt hilt h f hf' hf

theorem Holds.member_at (H : Holds w L) {i : Nat} {c : Created} (h : w.spaces[i]? = some c) :
    ∃ x, L.members[i]? = some x ∧ x ∈ L.members ∧ x.created = c := by
  rw [H.spaces, List.getElem?_map] at h
  obtain ⟨x, hx, hc⟩ := Option.map_eq_some_iff.mp h
  exact ⟨x, hx, List.mem_of_getElem? hx, hc⟩

theorem Holds.member_of_mem (H : Holds w L) {c : Created} (h : c ∈ w.spaces) :
    ∃ x ∈ L.members, x.created = c := by
  rw [H.spaces] at h
  exact List.mem_map.mp h

end Translations

/-! ## The page at `DEMO_VA` -/

section Demo

variable {w : World} {L : Layout} {x : Member} {off : Nat}

theorem indexAt_demo (h : off < 4096) :
    demoVa + off < 2 ^ 39 ∧ indexAt (demoVa + off) 30 = 1 ∧ indexAt (demoVa + off) 21 = 0 ∧
      indexAt (demoVa + off) 12 = 0 ∧ (demoVa + off) % 2 ^ 12 = off := by
  unfold indexAt demoVa
  omega

/-- The kernel has nothing there. -/
theorem Holds.demo_kernel (H : Holds w L) (P : L.Private) (h : off < 4096) :
    translateVa w.page.mem w.page.kernelPml4 (demoVa + off) = none := by
  obtain ⟨hlow, hgig, -⟩ := indexAt_demo h
  rw [H.translate_kernel, if_pos hlow, gigabyte, hgig, P]

/-- A ring-3 process has nothing there. -/
theorem Holds.demo_user (H : Holds w L) (hx : x ∈ L.members)
    (hkind : x.created.kind = .userProcess) (h : off < 4096) :
    translateVa w.page.mem x.created.cr3 (demoVa + off) = none := by
  obtain ⟨hlow, hgig, hpd, -⟩ := indexAt_demo h
  have hmade := (H.stands x hx).isMade
  unfold Matches at hmade
  rw [hkind] at hmade
  rw [H.translate_member hx, if_pos hlow, if_pos hgig, privatePage, hpd, hmade.2.2.1]
  rfl

/-- An address space has one page there. -/
theorem Holds.demo_space (H : Holds w L) (hx : x ∈ L.members)
    (hkind : x.created.kind = .addressSpace) :
    ∃ frame ∈ x.space.pages, IsFrame frame ∧ ∀ off < 4096,
      translateVa w.page.mem x.created.cr3 (demoVa + off) = some ⟨frame + off, supervisor⟩ := by
  have hmade := (H.stands x hx).isMade
  unfold Matches at hmade
  rw [hkind] at hmade
  obtain ⟨-, hflags, hpdIdx, -, frame, hpages⟩ := hmade
  have hin : frame ∈ x.space.pages := by simp [hpages]
  refine ⟨frame, hin, ?_, fun off hoff => ?_⟩
  · exact (H.member_table hx (Space.pages_subset hin)).1
  · obtain ⟨hlow, hgig, hpd, hpt, hoffset⟩ := indexAt_demo hoff
    rw [H.translate_member hx, if_pos hlow, if_pos hgig, privatePage, hpd, hpdIdx, hpt, hpages,
      hflags, hoffset]
    rfl

/-- What backs `DEMO_VA` in a space is a page of that space. -/
theorem Holds.demo_backed (H : Holds w L) (hx : x ∈ L.members) (hoff : off < 4096)
    {t : Translation} (h : translateVa w.page.mem x.created.cr3 (demoVa + off) = some t) :
    ∃ frame ∈ x.space.pages, IsFrame frame ∧ t.pa = frame + off := by
  cases hkind : x.created.kind with
  | userProcess =>
    rw [H.demo_user hx hkind hoff] at h
    cases h
  | addressSpace =>
    obtain ⟨frame, hin, hframe, hdemo⟩ := H.demo_space hx hkind
    rw [hdemo off hoff] at h
    refine ⟨frame, hin, hframe, ?_⟩
    rw [← Option.some.inj h]

/-- The first gigabyte is the kernel's, in every space. -/
theorem Holds.first_gigabyte (H : Holds w L) (hx : x ∈ L.members) {va : Nat}
    (hva : va < 2 ^ 30) :
    translateVa w.page.mem x.created.cr3 va = translateVa w.page.mem w.page.kernelPml4 va ∧
      ∀ t, translateVa w.page.mem x.created.cr3 va = some t → t.rights.user = false := by
  have hlow : va < 2 ^ 39 := Nat.lt_trans hva (by decide)
  have hidx : indexAt va 30 = 0 := by
    unfold indexAt
    omega
  have hspace : translateVa w.page.mem x.created.cr3 va = gigabyte w.page.mem x.pds va := by
    rw [H.translate_member hx, if_pos hlow, if_neg (by simp [hidx])]
  have hsame : gigabyte w.page.mem x.pds va = gigabyte w.page.mem L.pds va := by
    unfold gigabyte
    rw [hidx, (H.stands x hx).first]
  refine ⟨?_, fun t ht => gigabyte_supervisor (hspace ▸ ht)⟩
  rw [hspace, hsame, H.translate_kernel, if_pos hlow]

/-- **What is written to a page changes no translation.** -/
theorem Holds.page_write (H : Holds w L) (hx : x ∈ L.members) {m : Mem} {frame root : Nat}
    (hframe : frame ∈ x.space.pages) (hm : w.page.mem.AgreeOutside frame m)
    (hroot : root ∈ w.roots) (va : Nat) :
    translateVa m root va = translateVa w.page.mem root va := by
  have hpage : IsTable frame := H.member_table hx (Space.pages_subset hframe)
  apply translate_congr
  intro t ht i hi
  have htable : IsTable t := H.isTable (H.isTableOf_mem hroot ht)
  refine hm.read hpage.1 htable.1 ?_ (by omega)
  rintro rfl
  exact H.page_not_table hx hframe hroot ht

theorem Holds.cr3_mem_roots (H : Holds w L) (hx : x ∈ L.members) : x.created.cr3 ∈ w.roots := by
  refine List.mem_cons_of_mem _ (List.mem_map.mpr ⟨x.created, ?_, rfl⟩)
  rw [H.spaces]
  exact List.mem_map_of_mem hx

/-- What another space reads at `DEMO_VA` stays. -/
theorem Holds.demo_load (H : Holds w L) {y : Member} {m : Mem} {i j frame n : Nat}
    (hi : L.members[i]? = some x) (hj : L.members[j]? = some y) (hne : j ≠ i)
    (hframe : frame ∈ x.space.pages) (hm : w.page.mem.AgreeOutside frame m) (hoff : off < 4096)
    (hn : off + n ≤ 4096) :
    loadVa m y.created.cr3 (demoVa + off) n = loadVa w.page.mem y.created.cr3
      (demoVa + off) n := by
  have hx := List.mem_of_getElem? hi
  have hy := List.mem_of_getElem? hj
  unfold loadVa
  rw [H.page_write hx hframe hm (H.cr3_mem_roots hy)]
  cases ht : translateVa w.page.mem y.created.cr3 (demoVa + off) with
  | none => rfl
  | some t =>
    -- another space's page is another frame
    obtain ⟨frame', hin', hframe', hpa⟩ := H.demo_backed hy hoff ht
    have hother : frame ≠ frame' := by
      rintro rfl
      exact H.disjoint_at hj hi hne frame (Space.pages_subset hin') (Space.pages_subset hframe)
    have hpage := (H.member_table hx (Space.pages_subset hframe)).1
    simp only [Option.map_some, hpa]
    rw [hm.read hpage hframe' hother hn]

/-- **Address spaces are isolated.**  After `paging_init_kernel_map` and any calls,
`DEMO_VA` has in each address space a frame of its own, which is nobody's table; the
first gigabyte is the kernel's and closed to ring 3; and a store into the page at
`DEMO_VA` changes neither what another space reads there nor any translation. -/
theorem address_spaces_isolated (r : Reach Booted World.step (fun _ op => op.Outside) w) :
    (∀ (i : Nat) (c : Created), w.spaces[i]? = some c → c.kind = .addressSpace →
      ∃ frame, IsFrame frame ∧
      translateVa w.page.mem c.cr3 demoVa = some ⟨frame, supervisor⟩ ∧
      (∀ root ∈ w.roots, ¬ IsTableOf w.page.mem 4 (frameOf root) frame) ∧
      (∀ t, translateVa w.page.mem w.page.kernelPml4 demoVa = some t → t.pa ≠ frame) ∧
      (∀ (j : Nat) (c' : Created), w.spaces[j]? = some c' → j ≠ i →
        ∀ t, translateVa w.page.mem c'.cr3 demoVa = some t → t.pa ≠ frame)) ∧
    (∀ c ∈ w.spaces, ∀ va < 2 ^ 30,
      translateVa w.page.mem c.cr3 va = translateVa w.page.mem w.page.kernelPml4 va ∧
        ∀ t, translateVa w.page.mem c.cr3 va = some t → t.rights.user = false) ∧
    (∀ (i : Nat) (c : Created), w.spaces[i]? = some c → c.kind = .addressSpace →
      ∀ off n v, off < 4096 → off + n ≤ 4096 →
        ∃ m', storeVa w.page.mem c.cr3 (demoVa + off) n v = some m' ∧
          (∀ root ∈ w.roots, ∀ va, translateVa m' root va = translateVa w.page.mem root va) ∧
          ∀ (j : Nat) (c' : Created), w.spaces[j]? = some c' → j ≠ i → ∀ off' n', off' < 4096 →
            off' + n' ≤ 4096 →
            loadVa m' c'.cr3 (demoVa + off') n' =
              loadVa w.page.mem c'.cr3 (demoVa + off') n') := by
  obtain ⟨L, H, P⟩ := reach_holds r
  refine ⟨?_, ?_, ?_⟩
  · intro i c hi hkind
    obtain ⟨x, hxi, hx, rfl⟩ := H.member_at hi
    obtain ⟨frame, hin, hframe, hdemo⟩ := H.demo_space hx hkind
    refine ⟨frame, hframe, hdemo 0 (by decide),
      fun root hroot => H.page_not_table hx hin hroot, ?_, ?_⟩
    · intro t ht
      have hnone := H.demo_kernel P (show 0 < 4096 by decide)
      rw [Nat.add_zero] at hnone
      rw [hnone] at ht
      cases ht
    · intro j c' hj hne t ht hpa
      obtain ⟨y, hyj, hy, rfl⟩ := H.member_at hj
      obtain ⟨frame', hin', -, hpa'⟩ := H.demo_backed hy (show 0 < 4096 by decide) ht
      have heq : frame' = frame := hpa'.symm.trans hpa
      exact H.disjoint_at hyj hxi hne frame' (Space.pages_subset hin')
        (heq ▸ Space.pages_subset hin)
  · intro c hc va hva
    obtain ⟨x, hx, rfl⟩ := H.member_of_mem hc
    exact H.first_gigabyte hx hva
  · intro i c hi hkind off n v hoff hn
    obtain ⟨x, hxi, hx, rfl⟩ := H.member_at hi
    obtain ⟨frame, hin, hframe, hdemo⟩ := H.demo_space hx hkind
    refine ⟨w.page.mem.write (frame + off) n v, ?_, ?_, ?_⟩
    · unfold storeVa
      rw [hdemo off hoff]
      rfl
    · intro root hroot va
      exact H.page_write hx hin (Mem.agreeOutside_write hn) hroot va
    · intro j c' hj hne off' n' hoff' hn'
      obtain ⟨y, hyj, hy, rfl⟩ := H.member_at hj
      exact H.demo_load hxi hyj hne hin (Mem.agreeOutside_write hn) hoff' hn'

/-- Two address spaces and a ring-3 process, made from the pool at 2 MiB after the
LAPIC was mapped. -/
def threeSpaces : List Op :=
  [.pagingMapMmio2mb 0xFEE00000, .createAddressSpace, .createUserProcess, .createAddressSpace]

theorem threeSpaces_run : ∃ w₀ w, pagingInitKernelMap (poolState 0x200000) =
    some ((), w₀.page) ∧
    Booted w₀ ∧ exec World.step w₀ threeSpaces = some w :=
  exists_run 0x200000 threeSpaces (by unfold IsFrame; decide) (by decide) (by decide)

theorem threeSpaces_outside : ∀ op ∈ threeSpaces, op.Outside := by
  simp [threeSpaces, Op.Outside, Outside]

theorem address_spaces_isolated_two :
    ∃ w₀ w c₀ c₁ f₀ f₁, pagingInitKernelMap (poolState 0x200000) = some ((), w₀.page) ∧
      exec World.step w₀ threeSpaces = some w ∧ w.spaces[0]? = some c₀ ∧
      w.spaces[2]? = some c₁ ∧
      translateVa w.page.mem c₀.cr3 demoVa = some ⟨f₀, supervisor⟩ ∧
      translateVa w.page.mem c₁.cr3 demoVa = some ⟨f₁, supervisor⟩ ∧ f₀ ≠ f₁ := by
  obtain ⟨w₀, w, hinit, hboot, hrun⟩ := threeSpaces_run
  obtain ⟨c₀, h₀, hkind₀⟩ := hboot.made_at hrun (i := 0) rfl
  obtain ⟨c₁, h₁, hkind₁⟩ := hboot.made_at hrun (i := 2) rfl
  have hisolated := (address_spaces_isolated (hboot.reach threeSpaces_outside hrun)).1
  obtain ⟨f₀, -, ht₀, -⟩ := hisolated 0 c₀ h₀ hkind₀
  obtain ⟨f₁, -, ht₁, -, -, hother⟩ := hisolated 2 c₁ h₁ hkind₁
  exact ⟨w₀, w, c₀, c₁, f₀, f₁, hinit, hrun, h₀, h₁, ht₀, ht₁, hother 0 c₀ h₀ (by decide) _ ht₀⟩

end Demo

/-! ## Ring 3 -/

section Ring3

variable {w : World} {L : Layout} {x : Member} {va : Nat}

/-- The addresses ring 3 can access: mapped, with the user bit at every level. -/
def ring3Reach (m : Mem) (cr3 : Nat) : Set Nat :=
  {va | ∃ t, translateVa m cr3 va = some t ∧ t.rights.user = true}

/-- The two ring-3 pages by their indices. -/
theorem indexAt_user_iff :
    (va < 2 ^ 39 ∧ indexAt va 30 = 1 ∧ indexAt va 21 = 128 ∧ indexAt va 12 < 2) ↔
      userCodeVa ≤ va ∧ va < userCodeVa + 8192 := by
  unfold indexAt userCodeVa
  omega

/-- What ring 3 reaches is a private page. -/
theorem Holds.ring3_private (H : Holds w L) (hx : x ∈ L.members)
    (hva : va ∈ ring3Reach w.page.mem x.created.cr3) :
    va < 2 ^ 39 ∧ indexAt va 30 = 1 ∧ ∃ t, privatePage x.space va = some t ∧
    t.rights.user = true := by
  obtain ⟨t, ht, huser⟩ := hva
  rw [H.translate_member hx] at ht
  split at ht
  · rename_i hlow
    split at ht
    · rename_i hgig
      exact ⟨hlow, hgig, t, ht, huser⟩
    · rw [gigabyte_supervisor ht] at huser
      cases huser
  · cases ht

theorem privatePage_some {sp : Space} {t : Translation} (h : privatePage sp va = some t) :
    indexAt va 21 = sp.pdIdx ∧ indexAt va 12 < sp.pages.length ∧
    t.rights = Rights.all.meet sp.flags := by
  unfold privatePage at h
  split at h
  · rename_i hpd
    split at h
    · rename_i f hf
      refine ⟨hpd, (List.getElem?_eq_some_iff.mp hf).1, ?_⟩
      rw [← Option.some.inj h]
    · cases h
  · cases h

/-- The pages of a ring-3 process. -/
theorem Holds.user_pages (H : Holds w L) (hx : x ∈ L.members) {code stack : Nat}
    (hpd : x.space.pdIdx = 128) (hflags : x.space.flags = 0x07)
    (hpages : x.space.pages = [code, stack]) {off : Nat} (hoff : off < 4096) :
    translateVa w.page.mem x.created.cr3 (userCodeVa + off) = some ⟨code + off, Rights.all⟩ ∧
      translateVa w.page.mem x.created.cr3 (userStackPageVa + off) =
        some ⟨stack + off, Rights.all⟩ := by
  have hcode : userCodeVa + off < 2 ^ 39 ∧ indexAt (userCodeVa + off) 30 = 1 ∧
      indexAt (userCodeVa + off) 21 = 128 ∧ indexAt (userCodeVa + off) 12 = 0 ∧
      (userCodeVa + off) % 2 ^ 12 = off := by
    unfold indexAt userCodeVa
    omega
  have hstack : userStackPageVa + off < 2 ^ 39 ∧ indexAt (userStackPageVa + off) 30 = 1 ∧
      indexAt (userStackPageVa + off) 21 = 128 ∧ indexAt (userStackPageVa + off) 12 = 1 ∧
      (userStackPageVa + off) % 2 ^ 12 = off := by
    unfold indexAt userStackPageVa
    omega
  constructor
  · rw [H.translate_member hx, if_pos hcode.1, if_pos hcode.2.1, privatePage, hcode.2.2.1, hpd,
      hcode.2.2.2.1, hpages, hflags, hcode.2.2.2.2]
    rfl
  · rw [H.translate_member hx, if_pos hstack.1, if_pos hstack.2.1, privatePage,
      hstack.2.2.1, hpd, hstack.2.2.2.1, hpages, hflags, hstack.2.2.2.2]
    rfl

theorem Matches.taken_subset {c : Created} {sp : Space} (h : Matches c sp) {f : Nat}
    (hf : f ∈ c.taken) :
    f ∈ sp.frames := by
  unfold Matches at h
  cases hk : c.kind with
  | addressSpace =>
    rw [hk] at h
    obtain ⟨-, -, -, htaken, -⟩ := h
    rwa [htaken] at hf
  | userProcess =>
    rw [hk] at h
    obtain ⟨-, -, -, code, stack, hpages, htaken⟩ := h
    rw [htaken] at hf
    unfold Space.frames
    rw [hpages]
    simp only [List.mem_cons, List.not_mem_nil, or_false] at hf ⊢
    omega

/-- Ring 3 reaches the two pages of its process. -/
theorem Holds.ring3_user (H : Holds w L) (hx : x ∈ L.members) {code stack : Nat}
    (hpd : x.space.pdIdx = 128) (hflags : x.space.flags = 0x07)
    (hpages : x.space.pages = [code, stack]) :
    ring3Reach w.page.mem x.created.cr3 = {va | userCodeVa ≤ va ∧ va < userCodeVa + 8192} := by
  have hpage := fun off (hoff : off < 4096) => H.user_pages hx hpd hflags hpages hoff
  ext va
  constructor
  · intro hva
    obtain ⟨hlow, hgig, t, ht, -⟩ := H.ring3_private hx hva
    obtain ⟨hidx, hlen, -⟩ := privatePage_some ht
    rw [hpages] at hlen
    exact indexAt_user_iff.mp ⟨hlow, hgig, hidx.trans hpd, hlen⟩
  · rintro ⟨hlo, hhi⟩
    by_cases hfirst : va < userStackPageVa
    · have hoff : va - userCodeVa < 4096 := by
        unfold userStackPageVa at hfirst
        unfold userCodeVa
        omega
      have hcode := (hpage _ hoff).1
      rw [Nat.add_sub_cancel' hlo] at hcode
      exact ⟨_, hcode, rfl⟩
    · have hoff : va - userStackPageVa < 4096 := by
        unfold userCodeVa at hhi
        unfold userStackPageVa
        omega
      have hstack := (hpage _ hoff).2
      rw [Nat.add_sub_cancel' (Nat.le_of_not_lt hfirst)] at hstack
      exact ⟨_, hstack, rfl⟩

/-- Ring 3 reaches nothing in an address space. -/
theorem Holds.ring3_space (H : Holds w L) (hx : x ∈ L.members) (hflags : x.space.flags = 0x03) :
    ring3Reach w.page.mem x.created.cr3 = ∅ := by
  ext va
  refine ⟨fun hva => ?_, fun hva => hva.elim⟩
  obtain ⟨-, -, t, ht, huser⟩ := H.ring3_private hx hva
  rw [(privatePage_some ht).2.2, hflags] at huser
  exact absurd huser (by decide)

/-- **What ring 3 reaches.**  In a ring-3 process exactly the two pages from
`USER_CODE_VA` on, backed by the code frame and the stack frame of that process; in
an address space nothing.  The code frame and the stack frame are the third and the
fourth frame `create_user_process` takes. -/
theorem ring3_reach_exact (r : Reach Booted World.step (fun _ op => op.Outside) w) :
    (∀ (i : Nat) (c : Created), w.spaces[i]? = some c → c.kind = .userProcess →
      ring3Reach w.page.mem c.cr3 = {va | userCodeVa ≤ va ∧ va < userCodeVa + 8192} ∧
      ∃ code stack, c.taken[2]? = some code ∧ c.taken[3]? = some stack ∧ code ≠ stack ∧
        (∀ off < 4096,
          translateVa w.page.mem c.cr3 (userCodeVa + off) = some ⟨code + off, Rights.all⟩ ∧
          translateVa w.page.mem c.cr3 (userStackPageVa + off) =
            some ⟨stack + off, Rights.all⟩) ∧
        ∀ (j : Nat) (c' : Created), w.spaces[j]? = some c' → j ≠ i → code ∉ c'.taken ∧
          stack ∉ c'.taken) ∧
    (∀ c ∈ w.spaces, c.kind = .addressSpace → ring3Reach w.page.mem c.cr3 = ∅) := by
  obtain ⟨L, H, P⟩ := reach_holds r
  refine ⟨?_, ?_⟩
  · intro i c hi hkind
    obtain ⟨x, hxi, hx, rfl⟩ := H.member_at hi
    have hmade := (H.stands x hx).isMade
    unfold Matches at hmade
    rw [hkind] at hmade
    obtain ⟨-, hflags, hpd, code, stack, hpages, htaken⟩ := hmade
    have hcode : code ∈ x.space.pages := by simp [hpages]
    have hstack : stack ∈ x.space.pages := by simp [hpages]
    refine ⟨H.ring3_user hx hpd hflags hpages, code, stack, by simp [htaken],
      by simp [htaken], ?_, fun off hoff => H.user_pages hx hpd hflags hpages hoff, ?_⟩
    · have hnodup := H.members_nodup.1 x hx
      unfold Space.frames at hnodup
      rw [hpages] at hnodup
      simp only [List.nodup_cons, List.mem_cons, List.not_mem_nil, or_false, not_or] at hnodup
      exact hnodup.2.2.2.2.1
    · intro j c' hj hne
      obtain ⟨y, hyj, hy, rfl⟩ := H.member_at hj
      have hfar := H.disjoint_at hxi hyj hne.symm
      have htaken' := (H.stands y hy).isMade
      exact ⟨fun hin => hfar code (Space.pages_subset hcode) (htaken'.taken_subset hin),
        fun hin => hfar stack (Space.pages_subset hstack) (htaken'.taken_subset hin)⟩
  · intro c hc hkind
    obtain ⟨x, hx, rfl⟩ := H.member_of_mem hc
    have hmade := (H.stands x hx).isMade
    unfold Matches at hmade
    rw [hkind] at hmade
    exact H.ring3_space hx hmade.2.1

theorem ring3_reach_exact_three :
    ∃ w₀ w c₀ c₁, pagingInitKernelMap (poolState 0x200000) = some ((), w₀.page) ∧
      exec World.step w₀ threeSpaces = some w ∧ w.spaces[0]? = some c₀ ∧
      w.spaces[1]? = some c₁ ∧
      ring3Reach w.page.mem c₀.cr3 = ∅ ∧
      ring3Reach w.page.mem c₁.cr3 = {va | 0x50000000 ≤ va ∧ va < 0x50002000} := by
  obtain ⟨w₀, w, hinit, hboot, hrun⟩ := threeSpaces_run
  obtain ⟨c₀, h₀, hkind₀⟩ := hboot.made_at hrun (i := 0) rfl
  obtain ⟨c₁, h₁, hkind₁⟩ := hboot.made_at hrun (i := 1) rfl
  have hreach := ring3_reach_exact (hboot.reach threeSpaces_outside hrun)
  refine ⟨w₀, w, c₀, c₁, hinit, hrun, h₀, h₁, ?_, ?_⟩
  · exact hreach.2 c₀ (List.mem_of_getElem? h₀) hkind₀
  · exact (hreach.1 1 c₁ h₁ hkind₁).1

end Ring3

end NekaKernel.Paging
