/-
  Paging/Spaces.lean --- what creating an address space leaves in memory.

  Source: `create_address_space`, `create_user_process`, `map_user_page` and
  `paging_map_mmio_2mb` in `paging64.c`.

  Both kinds of address space have one shape: a PML4 and a PDPT of their own, the
  kernel's PDPT entries copied, and below PDPT entry 1 one private page directory
  with one private page table.  They differ in the flags, in where the table
  hangs, and in the pages it maps.
-/
import NekaKernel.Paging.Effects

set_option autoImplicit false

namespace NekaKernel.Paging

open NekaKernel.Foundation NekaKernel.Kernel

/-! ## The shape of a space -/

/-- The frames an address space is made of. -/
structure Space where
  pml4 : Nat
  pdpt : Nat
  pd : Nat
  pt : Nat
  flags : Nat
  pdIdx : Nat
  pages : List Nat
  deriving DecidableEq, Repr

/-- The tables and then the pages. -/
def Space.frames (sp : Space) : List Nat := sp.pml4 :: sp.pdpt :: sp.pd :: sp.pt :: sp.pages

/-- The entries of the kernel's PDPT that `inherit_kernel_pdpt` copies. -/
def inherited (s : PageState) (i : Nat) : Nat :=
  if present (s.mem.entry s.kernelPdpt i) then s.mem.entry s.kernelPdpt i else 0

/-- The tables of `sp` stand in memory, with `slots` as inherited entries. -/
structure Built (m : Mem) (sp : Space) (slots : Nat → Nat) : Prop where
  pml4 : ∀ i, i < 512 → m.entry sp.pml4 i = if i = 0 then sp.pdpt ||| sp.flags else 0
  pdpt : ∀ i, i < 512 → m.entry sp.pdpt i = if i = 1 then sp.pd ||| sp.flags else slots i
  pd : ∀ i, i < 512 → m.entry sp.pd i = if i = sp.pdIdx then sp.pt ||| sp.flags else 0
  pt : ∀ i, i < 512 → m.entry sp.pt i = match sp.pages[i]? with
    | some f => f ||| sp.flags
    | none => 0

/-- What the callers rely on: the frames to come are distinct page frames that
are not in use. -/
structure Ready (s : PageState) : Prop where
  tables : ∀ f ∈ s.supply, IsTable f
  nodup : s.supply.Nodup
  kernelPdpt : IsTable s.kernelPdpt
  fresh : s.kernelPdpt ∉ s.supply

/-- From `s` on, exactly the frames `own` were taken and only they were written. -/
structure Since (s u : PageState) (own : List Nat) : Prop where
  supply : s.supply = own ++ u.supply
  touches : Touches own s u

section Since

variable {s u u' : PageState} {own : List Nat} {f : Nat}

theorem since_start (s : PageState) : Since s s [] := ⟨rfl, Touches.refl _ _⟩

theorem Since.mem_supply (S : Since s u own) (hf : f ∈ own) : f ∈ s.supply := by
  rw [S.supply]
  exact List.mem_append_left _ hf

theorem Since.table (S : Since s u own) (R : Ready s) (hf : f ∈ own) : IsTable f :=
  R.tables f (S.mem_supply hf)

theorem Since.nodup (S : Since s u own) (R : Ready s) : own.Nodup := by
  have hnodup := R.nodup
  rw [S.supply] at hnodup
  exact (List.nodup_append.mp hnodup).1

theorem Since.kernelPdpt_notMem (S : Since s u own) (R : Ready s) : s.kernelPdpt ∉ own :=
  fun hin => R.fresh (S.mem_supply hin)

/-- The kernel's PDPT is not written. -/
theorem Since.kernel_entry (S : Since s u own) (R : Ready s) {j : Nat} (hj : j < 512) :
    u.mem.entry u.kernelPdpt j = s.mem.entry s.kernelPdpt j := by
  rw [S.touches.kernelPdpt]
  exact S.touches.entry (fun f hf => (S.table R hf).1) R.kernelPdpt.1 (S.kernelPdpt_notMem R) hj

theorem Since.ready (S : Since s u own) (R : Ready s) : Ready u := by
  have hsub : ∀ g ∈ u.supply, g ∈ s.supply :=
    fun g hg => S.supply ▸ List.mem_append_right own hg
  refine ⟨fun g hg => R.tables g (hsub g hg), ?_, ?_, ?_⟩
  · have hnodup := R.nodup
    rw [S.supply] at hnodup
    exact (List.nodup_append.mp hnodup).2.1
  · rw [S.touches.kernelPdpt]
    exact R.kernelPdpt
  · rw [S.touches.kernelPdpt]
    exact fun hin => R.fresh (hsub _ hin)

/-- One more frame. -/
theorem Since.alloc (S : Since s u own) (R : Ready s) (h : allocFrame u = some (f, u')) :
    Since s u' (own ++ [f]) ∧
      ∀ t j, IsFrame t → j < 512 → u'.mem.entry t j = if t = f then 0 else u.mem.entry t j := by
  obtain ⟨hsupply, htouch, hentry⟩ := allocFrame_spec h fun g hg => ((S.ready R).tables g hg).1
  refine ⟨⟨?_, ?_⟩, hentry⟩
  · rw [S.supply, hsupply, List.append_assoc]
    rfl
  · refine (S.touches.mono ?_).trans (htouch.mono ?_) <;> simp

/-- One more store into a frame that was taken. -/
theorem Since.store {t i v : Nat} (S : Since s u own) (R : Ready s)
    (h : storeEntry t i v u = some ((), u')) (ht : t ∈ own) (hi : i < 512) (hv : v < 2 ^ 64) :
    Since s u' own ∧ ∀ t' j, IsFrame t' → j < 512 →
      u'.mem.entry t' j = if t' = t ∧ j = i then v else u.mem.entry t' j := by
  obtain ⟨hsupply, htouch, hentry⟩ := storeEntry_spec h (S.table R ht).1 hi hv
  refine ⟨⟨?_, S.touches.trans (htouch.mono ?_)⟩, hentry⟩
  · rw [S.supply, hsupply]
  · simpa using ht

/-- Bytes copied into a frame that was taken. -/
theorem Since.copy {q n : Nat} {byte : Nat → Nat} (S : Since s u own) (hq : q ∈ own)
    (hn : n ≤ 4096)
    (h : forUpTo n (fun i => Paging.store (q + i) 1 (byte i)) u = some ((), u')) :
    Since s u' own ∧ Touches [q] u u' := by
  have hloop : u'.supply = u.supply ∧ Touches [q] u u' := by
    refine forUpTo_some (I := fun _ v => v.supply = u.supply ∧ Touches [q] u v) h ?_ ?_
    · exact ⟨rfl, Touches.refl _ _⟩
    · intro i v v' hi hv hstore
      obtain ⟨hsupply, htouch⟩ := store_touches (t := q) hstore (by omega) (by omega)
      exact ⟨hsupply.trans hv.1, hv.2.trans htouch⟩
  refine ⟨⟨?_, S.touches.trans (hloop.2.mono ?_)⟩, hloop.2⟩
  · rw [S.supply, hloop.1]
  · simpa using hq

/-- The bytes stand where they were copied to. -/
theorem copy_bytes {q n : Nat} {byte : Nat → Nat}
    (h : forUpTo n (fun i => Paging.store (q + i) 1 (byte i)) u = some ((), u')) :
    ∀ i < n, u'.mem (q + i) = UInt8.ofNat (byte i) := by
  refine forUpTo_some (I := fun k v => ∀ i < k, v.mem (q + i) = UInt8.ofNat (byte i)) h ?_ ?_
  · intro i hi
    exact absurd hi (Nat.not_lt_zero i)
  · intro k v v' _ hv hstore i hi
    have hmem : v'.mem = v.mem.write (q + k) 1 (byte k) := by rw [store_some hstore]
    rw [hmem]
    by_cases hlast : i = k
    · subst hlast
      simp [Mem.write]
    · rw [Mem.write_outside (by omega)]
      exact hv i (by omega)

/-- An empty table hung under a frame that was taken. -/
theorem Since.nextLevel {table idx flags r : Nat} (S : Since s u own) (R : Ready s)
    (h : getOrCreateNextLevel table idx flags u = some (r, u'))
    (hp : present (u.mem.entry table idx) = false) (ht : table ∈ own) (hidx : idx < 512)
    (hflags : flags < 4096) :
    Since s u' (own ++ [r]) ∧ ∀ t j, IsFrame t → j < 512 → u'.mem.entry t j =
      if t = table ∧ j = idx then r ||| flags else if t = r then 0 else u.mem.entry t j := by
  obtain ⟨hsupply, htouch, hentry⟩ :=
    getOrCreate_of_absent h hp (S.ready R).tables (S.table R ht).1 hidx hflags
  refine ⟨⟨?_, ?_⟩, hentry⟩
  · rw [S.supply, hsupply, List.append_assoc]
    rfl
  · refine (S.touches.mono ?_).trans (htouch.mono ?_)
    · simp
    · simp [ht]

/-- The kernel's entries copied into a frame that was taken. -/
theorem Since.inherit {q : Nat} (S : Since s u own) (R : Ready s)
    (h : inheritKernelPdpt q u = some ((), u')) (hq : q ∈ own) :
    Since s u' own ∧ ∀ t j, IsFrame t → j < 512 → u'.mem.entry t j =
      if t = q ∧ present (s.mem.entry s.kernelPdpt j) = true then s.mem.entry s.kernelPdpt j
      else u.mem.entry t j := by
  have hne : q ≠ u.kernelPdpt := by
    rw [S.touches.kernelPdpt]
    rintro rfl
    exact S.kernelPdpt_notMem R hq
  obtain ⟨hsupply, htouch, hentry⟩ :=
    inheritKernelPdpt_spec h (S.table R hq).1 (S.ready R).kernelPdpt.1 hne
  refine ⟨⟨?_, S.touches.trans (htouch.mono ?_)⟩, fun t j ht hj => ?_⟩
  · rw [S.supply, hsupply]
  · simpa using hq
  · rw [hentry t j ht hj, S.kernel_entry R hj]

end Since

/-! ## `create_address_space` -/

section Demo

variable {s s' : PageState} {r : Nat}

theorem createAddressSpace_spec (R : Ready s) (h : createAddressSpace s = some (r, s')) :
    ∃ sp frame, sp.flags = 0x03 ∧ sp.pdIdx = 0 ∧ sp.pages = [frame] ∧ r = sp.pml4 ∧
      Since s s' sp.frames ∧ Built s'.mem sp (inherited s) := by
  unfold createAddressSpace at h
  obtain ⟨pml4, s₁, h₁, k₁⟩ := bind_some h
  obtain ⟨S₁, e₁⟩ := (since_start s).alloc R h₁
  obtain ⟨pdpt, s₂, h₂, k₂⟩ := bind_some k₁
  obtain ⟨S₂, e₂⟩ := S₁.alloc R h₂
  obtain ⟨pd, s₃, h₃, k₃⟩ := bind_some k₂
  obtain ⟨S₃, e₃⟩ := S₂.alloc R h₃
  obtain ⟨pt, s₄, h₄, k₄⟩ := bind_some k₃
  obtain ⟨S₄, e₄⟩ := S₃.alloc R h₄
  obtain ⟨frame, s₅, h₅, k₅⟩ := bind_some k₄
  obtain ⟨S₅, e₅⟩ := S₄.alloc R h₅
  have hpml4 : IsTable pml4 := S₅.table R (by simp)
  have hpdpt : IsTable pdpt := S₅.table R (by simp)
  have hpd : IsTable pd := S₅.table R (by simp)
  have hpt : IsTable pt := S₅.table R (by simp)
  have hframe : IsTable frame := S₅.table R (by simp)
  obtain ⟨_, s₆, h₆, k₆⟩ := bind_some k₅
  obtain ⟨S₆, e₆⟩ := S₅.inherit R h₆ (by simp)
  obtain ⟨_, s₇, h₇, k₇⟩ := bind_some k₆
  obtain ⟨S₇, e₇⟩ := S₆.store R h₇ (by simp) (by decide) (or_lt hframe (by decide))
  obtain ⟨_, s₈, h₈, k₈⟩ := bind_some k₇
  obtain ⟨S₈, e₈⟩ := S₇.store R h₈ (by simp) (by decide) (or_lt hpt (by decide))
  obtain ⟨_, s₉, h₉, k₉⟩ := bind_some k₈
  obtain ⟨S₉, e₉⟩ := S₈.store R h₉ (by simp) (by decide) (or_lt hpd (by decide))
  obtain ⟨_, s₁₀, h₁₀, k₁₀⟩ := bind_some k₉
  obtain ⟨S₁₀, e₁₀⟩ := S₉.store R h₁₀ (by simp) (by decide) (or_lt hpdpt (by decide))
  obtain ⟨rfl, rfl⟩ := pure_some k₁₀
  have hnodup : [pml4, pdpt, pd, pt, frame].Nodup := S₁₀.nodup R
  simp only [List.nodup_cons, List.mem_cons, List.not_mem_nil, or_false, not_or] at hnodup
  obtain ⟨⟨n₁₂, n₁₃, n₁₄, n₁₅⟩, ⟨n₂₃, n₂₄, n₂₅⟩, ⟨n₃₄, n₃₅⟩, n₄₅, _⟩ := hnodup
  refine ⟨⟨pml4, pdpt, pd, pt, 0x03, 0, [frame]⟩, frame, rfl, rfl, rfl, rfl, S₁₀,
    ?_, ?_, ?_, ?_⟩
  · intro i hi
    have hf := hpml4.1
    rw [e₁₀ _ i hf hi, e₉ _ i hf hi, e₈ _ i hf hi, e₇ _ i hf hi, e₆ _ i hf hi, e₅ _ i hf hi,
      e₄ _ i hf hi, e₃ _ i hf hi, e₂ _ i hf hi, e₁ _ i hf hi]
    simp [n₁₂, n₁₃, n₁₄, n₁₅]
  · intro i hi
    have hf := hpdpt.1
    rw [e₁₀ _ i hf hi, e₉ _ i hf hi, e₈ _ i hf hi, e₇ _ i hf hi, e₆ _ i hf hi, e₅ _ i hf hi,
      e₄ _ i hf hi, e₃ _ i hf hi, e₂ _ i hf hi]
    unfold inherited
    simp [Ne.symm n₁₂, n₂₃, n₂₄, n₂₅]
  · intro i hi
    have hf := hpd.1
    rw [e₁₀ _ i hf hi, e₉ _ i hf hi, e₈ _ i hf hi, e₇ _ i hf hi, e₆ _ i hf hi, e₅ _ i hf hi,
      e₄ _ i hf hi, e₃ _ i hf hi]
    simp [Ne.symm n₁₃, Ne.symm n₂₃, n₃₄, n₃₅]
  · intro i hi
    have hf := hpt.1
    rw [e₁₀ _ i hf hi, e₉ _ i hf hi, e₈ _ i hf hi, e₇ _ i hf hi, e₆ _ i hf hi, e₅ _ i hf hi,
      e₄ _ i hf hi]
    cases i with
    | zero => simp [Ne.symm n₁₄, Ne.symm n₂₄, Ne.symm n₃₄]
    | succ i => simp [Ne.symm n₁₄, Ne.symm n₂₄, Ne.symm n₃₄, n₄₅]

end Demo

/-! ## `create_user_process` -/

section User

variable {s s' : PageState} {r : Nat}

/-- `map_user_page` where nothing is mapped in the gigabyte yet: a page directory
and a page table are made. -/
theorem mapUserPage_first {u u' : PageState} {own : List Nat} {pml4 pdpt frame : Nat}
    (S : Since s u own) (R : Ready s) (h : mapUserPage pml4 userCodeVa frame u = some ((), u'))
    (hpml4 : u.mem.entry pml4 0 = pdpt ||| 0x07) (hin : pdpt ∈ own) (hframe : frame ∈ own)
    (habsent : present (u.mem.entry pdpt 1) = false) :
    ∃ pd pt, Since s u' (own ++ [pd] ++ [pt]) ∧ ∀ t j, IsFrame t → j < 512 → u'.mem.entry t j =
      if t = pt ∧ j = 0 then frame ||| 0x07
      else if t = pd ∧ j = 128 then pt ||| 0x07
      else if t = pt then 0
      else if t = pdpt ∧ j = 1 then pd ||| 0x07
      else if t = pd then 0
      else u.mem.entry t j := by
  have hpdpt : IsTable pdpt := S.table R hin
  unfold mapUserPage at h
  have k₁ := nextLevel_link h hpml4 hpdpt (by decide) (by decide)
  obtain ⟨pd, u₂, h₂, k₂⟩ := bind_some k₁
  obtain ⟨S₂, e₂⟩ := S.nextLevel R h₂ habsent hin (by decide) (by decide)
  have hpd : IsTable pd := S₂.table R (by simp)
  obtain ⟨pt, u₃, h₃, k₃⟩ := bind_some k₂
  have hne : pd ≠ pdpt := by
    rintro rfl
    have hnodup := S₂.nodup R
    rw [List.nodup_append] at hnodup
    exact hnodup.2.2 pd hin pd (List.mem_singleton_self pd) rfl
  have hempty : u₂.mem.entry pd (tableIndex userCodeVa 21) = 0 := by
    rw [e₂ pd _ hpd.1 (by decide)]
    simp [hne]
  obtain ⟨S₃, e₃⟩ := S₂.nextLevel R h₃ (by rw [hempty]; rfl) (by simp) (by decide) (by decide)
  obtain ⟨S₄, e₄⟩ := S₃.store R k₃ (by simp) (by decide)
    (or_lt (S.table R hframe) (by decide))
  refine ⟨pd, pt, S₄, fun t j ht hj => ?_⟩
  rw [e₄ t j ht hj, e₃ t j ht hj, e₂ t j ht hj]
  rfl

/-- `map_user_page` where the tables stand: one store. -/
theorem mapUserPage_again {u u' : PageState} {own : List Nat} {pml4 pdpt pd pt frame : Nat}
    (S : Since s u own) (R : Ready s)
    (h : mapUserPage pml4 userStackPageVa frame u = some ((), u'))
    (hpml4 : u.mem.entry pml4 0 = pdpt ||| 0x07) (hpdpt : u.mem.entry pdpt 1 = pd ||| 0x07)
    (hpd : u.mem.entry pd 128 = pt ||| 0x07) (hin : ∀ f ∈ [pdpt, pd, pt, frame], f ∈ own) :
    Since s u' own ∧ ∀ t j, IsFrame t → j < 512 → u'.mem.entry t j =
      if t = pt ∧ j = 1 then frame ||| 0x07 else u.mem.entry t j := by
  have htable : ∀ f ∈ [pdpt, pd, pt, frame], IsTable f := fun f hf => S.table R (hin f hf)
  unfold mapUserPage at h
  have k₁ := nextLevel_link h hpml4 (htable pdpt (by simp)) (by decide) (by decide)
  have k₂ := nextLevel_link k₁ hpdpt (htable pd (by simp)) (by decide) (by decide)
  have k₃ := nextLevel_link k₂ hpd (htable pt (by simp)) (by decide) (by decide)
  exact S.store R k₃ (hin pt (by simp)) (by decide) (or_lt (htable frame (by simp)) (by decide))

/-- `user_program` in the frame `code`. -/
def ProgramAt (m : Mem) (code : Nat) : Prop :=
  ∀ i < userProgram.length, m (code + i) = UInt8.ofNat (userProgram.getD i 0)

/-- The program is in the first two words of the frame. -/
theorem ProgramAt.congr {m m' : Mem} {code : Nat} (h : ProgramAt m code)
    (hkeep : ∀ j < 2, m'.entry code j = m.entry code j) : ProgramAt m' code := by
  intro i hi
  have hlen : userProgram.length = 14 := rfl
  have hword := hkeep (i / 8) (by omega)
  unfold Mem.entry at hword
  have hsplit : code + i = code + 8 * (i / 8) + i % 8 := by omega
  have hlt : i % 8 < 8 := Nat.mod_lt i (by decide)
  rw [← h i hi, hsplit]
  apply UInt8.toNat.inj
  rw [← Mem.read_byte m' hlt, hword, Mem.read_byte m hlt]

/-- `create_user_process` up to its calls of `map_user_page`: a PML4 with one entry,
a PDPT with the kernel's entries, and the program. -/
theorem createUserProcess_start (R : Ready s) (h : createUserProcess s = some (r, s')) :
    ∃ pml4 pdpt code stack u u₁, Since s u [pml4, pdpt, code, stack] ∧
      (∀ i < 512, u.mem.entry pml4 i = if i = 0 then pdpt ||| 0x07 else 0) ∧
      (∀ i < 512, u.mem.entry pdpt i = inherited s i) ∧ ProgramAt u.mem code ∧
      mapUserPage pml4 userCodeVa code u = some ((), u₁) ∧
      mapUserPage pml4 userStackPageVa stack u₁ = some ((), s') ∧ r = pml4 := by
  unfold createUserProcess at h
  obtain ⟨pml4, s₁, h₁, k₁⟩ := bind_some h
  obtain ⟨S₁, e₁⟩ := (since_start s).alloc R h₁
  obtain ⟨pdpt, s₂, h₂, k₂⟩ := bind_some k₁
  obtain ⟨S₂, e₂⟩ := S₁.alloc R h₂
  have hpml4 : IsTable pml4 := S₂.table R (by simp)
  have hpdpt : IsTable pdpt := S₂.table R (by simp)
  obtain ⟨_, s₃, h₃, k₃⟩ := bind_some k₂
  obtain ⟨S₃, e₃⟩ := S₂.inherit R h₃ (by simp)
  obtain ⟨_, s₄, h₄, k₄⟩ := bind_some k₃
  obtain ⟨S₄, e₄⟩ := S₃.store R h₄ (by simp) (by decide) (or_lt hpdpt (by decide))
  obtain ⟨code, s₅, h₅, k₅⟩ := bind_some k₄
  obtain ⟨S₅, e₅⟩ := S₄.alloc R h₅
  obtain ⟨stack, s₆, h₆, k₆⟩ := bind_some k₅
  obtain ⟨S₆, e₆⟩ := S₅.alloc R h₆
  have hcode : IsTable code := S₆.table R (by simp)
  obtain ⟨_, s₇, h₇, k₇⟩ := bind_some k₆
  obtain ⟨S₇, T₇⟩ := S₆.copy (by simp) (by decide) h₇
  have e₇ : ∀ t j, IsFrame t → j < 512 → t ≠ code → s₇.mem.entry t j = s₆.mem.entry t j := by
    intro t j ht hj hne
    refine T₇.entry ?_ ht ?_ hj
    · simpa using hcode.1
    · simpa using hne
  have hdistinct : [pml4, pdpt, code, stack].Nodup := S₇.nodup R
  simp only [List.nodup_cons, List.mem_cons, List.not_mem_nil, or_false, not_or] at hdistinct
  obtain ⟨⟨n₁₂, n₁₃, n₁₄⟩, ⟨n₂₃, n₂₄⟩, n₃₄, _⟩ := hdistinct
  obtain ⟨_, s₈, h₈, k₈⟩ := bind_some k₇
  obtain ⟨_, s₉, h₉, k₉⟩ := bind_some k₈
  obtain ⟨rfl, rfl⟩ := pure_some k₉
  refine ⟨pml4, pdpt, code, stack, s₇, s₈, S₇, fun i hi => ?_, fun i hi => ?_, copy_bytes h₇,
    h₈, h₉, rfl⟩
  · have hf := hpml4.1
    rw [e₇ _ i hf hi n₁₃, e₆ _ i hf hi, e₅ _ i hf hi, e₄ _ i hf hi, e₃ _ i hf hi, e₂ _ i hf hi,
      e₁ _ i hf hi]
    simp [n₁₂, n₁₃, n₁₄]
  · have hf := hpdpt.1
    rw [e₇ _ i hf hi n₂₃, e₆ _ i hf hi, e₅ _ i hf hi, e₄ _ i hf hi, e₃ _ i hf hi, e₂ _ i hf hi]
    unfold inherited
    simp [Ne.symm n₁₂, n₂₃, n₂₄]

theorem createUserProcess_spec (R : Ready s) (h : createUserProcess s = some (r, s'))
    (habsent : present (s.mem.entry s.kernelPdpt 1) = false) :
    ∃ sp code stack, sp.flags = 0x07 ∧ sp.pdIdx = 128 ∧ sp.pages = [code, stack] ∧ r = sp.pml4 ∧
      Since s s' [sp.pml4, sp.pdpt, code, stack, sp.pd, sp.pt] ∧ Built s'.mem sp (inherited s) ∧
      ProgramAt s'.mem code := by
  obtain ⟨pml4, pdpt, code, stack, u, u₁, S, hroot, hslots, hprogram, h₁, h₂, hr⟩ :=
    createUserProcess_start R h
  have hone : inherited s 1 = 0 := by
    unfold inherited
    rw [if_neg (by simp [habsent])]
  obtain ⟨pd, pt, S₁, e₁⟩ := mapUserPage_first S R h₁ (hroot 0 (by decide)) (by simp) (by simp)
    (by rw [hslots 1 (by decide), hone]; rfl)
  have hpml4 : IsTable pml4 := S₁.table R (by simp)
  have hpdpt : IsTable pdpt := S₁.table R (by simp)
  have hpd : IsTable pd := S₁.table R (by simp)
  have hpt : IsTable pt := S₁.table R (by simp)
  have hnodup : [pml4, pdpt, code, stack, pd, pt].Nodup := S₁.nodup R
  simp only [List.nodup_cons, List.mem_cons, List.not_mem_nil, or_false, not_or] at hnodup
  obtain ⟨⟨n₁₂, -, -, n₁₅, n₁₆⟩, ⟨n₂₃, -, n₂₅, n₂₆⟩, ⟨-, n₃₅, n₃₆⟩, -, n₅₆, _⟩ := hnodup
  have hlink₁ : u₁.mem.entry pml4 0 = pdpt ||| 0x07 := by
    rw [e₁ _ _ hpml4.1 (by decide), hroot 0 (by decide)]
    simp [n₁₂, n₁₅, n₁₆]
  have hlink₂ : u₁.mem.entry pdpt 1 = pd ||| 0x07 := by
    rw [e₁ _ _ hpdpt.1 (by decide)]
    simp [n₂₅, n₂₆]
  have hlink₃ : u₁.mem.entry pd 128 = pt ||| 0x07 := by
    rw [e₁ _ _ hpd.1 (by decide)]
    simp [n₅₆]
  obtain ⟨S₂, e₂⟩ := mapUserPage_again S₁ R h₂ hlink₁ hlink₂ hlink₃ (by simp)
  have hcode : IsTable code := S₁.table R (by simp)
  refine ⟨⟨pml4, pdpt, pd, pt, 0x07, 128, [code, stack]⟩, code, stack, rfl, rfl, rfl, hr, S₂,
    ⟨?_, ?_, ?_, ?_⟩, hprogram.congr ?_⟩
  · intro i hi
    rw [e₂ _ i hpml4.1 hi, e₁ _ i hpml4.1 hi, hroot i hi]
    simp [n₁₂, n₁₅, n₁₆]
  · intro i hi
    rw [e₂ _ i hpdpt.1 hi, e₁ _ i hpdpt.1 hi, hslots i hi]
    simp [n₂₅, n₂₆]
  · intro i hi
    rw [e₂ _ i hpd.1 hi, e₁ _ i hpd.1 hi]
    simp [n₅₆, Ne.symm n₂₅]
  · intro i hi
    rw [e₂ _ i hpt.1 hi, e₁ _ i hpt.1 hi]
    match i with
    | 0 => simp
    | 1 => simp
    | i + 2 => simp [Ne.symm n₅₆]
  · intro j hj
    rw [e₂ _ j hcode.1 (by omega), e₁ _ j hcode.1 (by omega)]
    simp [n₃₅, n₃₆, Ne.symm n₂₃]

/-- **The walk into a shared table.**  Where the kernel has a page directory for the
gigabyte, that is the table `map_user_page` extends. -/
theorem createUserProcess_shared (R : Ready s)
    (h : createUserProcess s = some (r, s')) {d : Nat} (hd : IsTable d) (hfresh : d ∉ s.supply)
    (he : s.mem.entry s.kernelPdpt 1 = d ||| 0x03)
    (hempty : present (s.mem.entry d 128) = false) :
    ∃ pt ∈ s.supply, s'.mem.entry d 128 = pt ||| 0x07 := by
  obtain ⟨pml4, pdpt, code, stack, u, u₁, S, hroot, hslots, -, h₁, h₂, hr⟩ :=
    createUserProcess_start R h
  have hpml4 : IsTable pml4 := S.table R (by simp)
  have hpdpt : IsTable pdpt := S.table R (by simp)
  have hnot : d ∉ [pml4, pdpt, code, stack] := fun hin => hfresh (S.mem_supply hin)
  simp only [List.mem_cons, List.not_mem_nil, or_false, not_or] at hnot
  have hslot : u.mem.entry pdpt 1 = d ||| 0x03 := by
    rw [hslots 1 (by decide), inherited, he, present_or hd]
    rfl
  have habsent : present (u.mem.entry d 128) = false := by
    rw [S.touches.entry (fun f hf => (S.table R hf).1) hd.1 (by simp [hnot]) (by decide)]
    exact hempty
  -- the code page: a page table is made below the shared page directory
  unfold mapUserPage at h₁
  have k₁ := nextLevel_link h₁ (hroot 0 (by decide)) hpdpt (by decide) (by decide)
  have k₂ := nextLevel_link k₁ hslot hd (by decide) (by decide)
  obtain ⟨pt, u₂, h₃, h₄⟩ := bind_some k₂
  obtain ⟨hsupply, -, e₂⟩ :=
    getOrCreate_of_absent h₃ habsent (S.ready R).tables hd.1 (by decide) (by decide)
  have hpt : IsTable pt := (S.ready R).tables pt (hsupply ▸ List.mem_cons_self)
  have hin : pt ∈ s.supply := by
    rw [S.supply, hsupply]
    simp
  have hne : d ≠ pt := by
    rintro rfl
    exact hfresh hin
  have hnodup := R.nodup
  rw [S.supply, hsupply] at hnodup
  have hptne : pml4 ≠ pt ∧ pdpt ≠ pt := by
    have hapart := (List.nodup_append.mp hnodup).2.2
    exact ⟨hapart pml4 (by simp) pt List.mem_cons_self,
      hapart pdpt (by simp) pt List.mem_cons_self⟩
  have hcode : IsTable code := S.table R (by simp)
  obtain ⟨-, -, e₃⟩ := storeEntry_spec h₄ hpt.1 (by decide) (or_lt hcode (by decide))
  have hentry : ∀ t j, IsFrame t → j < 512 → t ≠ pt → u₁.mem.entry t j =
      if t = d ∧ j = 128 then pt ||| 0x07 else u.mem.entry t j := by
    intro t j ht hj htpt
    rw [e₃ t j ht hj, if_neg fun heq => htpt heq.1, e₂ t j ht hj, if_neg htpt]
    rfl
  have hlink : u₁.mem.entry d 128 = pt ||| 0x07 := by
    rw [hentry d 128 hd.1 (by decide) hne, if_pos ⟨rfl, rfl⟩]
  -- the stack page: the same path again
  unfold mapUserPage at h₂
  have hlink₁ : u₁.mem.entry pml4 0 = pdpt ||| 0x07 := by
    rw [hentry pml4 0 hpml4.1 (by decide) hptne.1, if_neg fun heq => hnot.1 heq.1.symm]
    exact hroot 0 (by decide)
  have hlink₂ : u₁.mem.entry pdpt 1 = d ||| 0x03 := by
    rw [hentry pdpt 1 hpdpt.1 (by decide) hptne.2, if_neg fun heq => hnot.2.1 heq.1.symm]
    exact hslot
  have j₁ := nextLevel_link h₂ hlink₁ hpdpt (by decide) (by decide)
  have j₂ := nextLevel_link j₁ hlink₂ hd (by decide) (by decide)
  have j₃ := nextLevel_link j₂ hlink hpt (by decide) (by decide)
  have hstack : IsTable stack := S.table R (by simp)
  obtain ⟨-, -, e₄⟩ := storeEntry_spec j₃ hpt.1 (by decide) (or_lt hstack (by decide))
  refine ⟨pt, hin, ?_⟩
  rw [e₄ d 128 hd.1 (by decide), if_neg fun heq => hne heq.1, hlink]

end User

/-! ## The kernel's own tables -/

section Kernel

variable {s s' : PageState} {pa : Nat}

/-- The entry `paging_map_mmio_2mb` stores. -/
theorem mmio_entry_lt (hpa : pa < 2 ^ 64) : pa ||| 0x93 < 2 ^ 64 :=
  Nat.or_lt_two_pow hpa (by decide)

/-- A mapping in a gigabyte that has a page directory: one store into it. -/
theorem mmio_of_present {d : Nat} (h : pagingMapMmio2mb pa s = some ((), s'))
    (hpa : pa < 2 ^ 64) (hd : IsTable d)
    (he : s.mem.entry s.kernelPdpt (tableIndex pa 30) = d ||| 0x03) :
    s'.supply = s.supply ∧ Touches [d] s s' ∧ ∀ t j, IsFrame t → j < 512 → s'.mem.entry t j =
      if t = d ∧ j = tableIndex pa 21 then pa ||| 0x93 else s.mem.entry t j := by
  unfold pagingMapMmio2mb at h
  obtain ⟨u, s₁, h₁, k₁⟩ := bind_some h
  obtain ⟨rfl, rfl⟩ := get_some h₁
  have k₂ := nextLevel_link k₁ he hd (by decide) (by decide)
  exact storeEntry_spec k₂ hd.1 (tableIndex_lt pa 21) (mmio_entry_lt hpa)

/-- A mapping in a gigabyte without one: an empty page directory is hung into the
kernel's PDPT first. -/
theorem mmio_of_absent (R : Ready s) (h : pagingMapMmio2mb pa s = some ((), s'))
    (hpa : pa < 2 ^ 64) (hp : present (s.mem.entry s.kernelPdpt (tableIndex pa 30)) = false) :
    ∃ pd, s.supply = pd :: s'.supply ∧ Touches [pd, s.kernelPdpt] s s' ∧
      ∀ t j, IsFrame t → j < 512 → s'.mem.entry t j =
        if t = pd ∧ j = tableIndex pa 21 then pa ||| 0x93
        else if t = s.kernelPdpt ∧ j = tableIndex pa 30 then pd ||| 0x03
        else if t = pd then 0
        else s.mem.entry t j := by
  unfold pagingMapMmio2mb at h
  obtain ⟨u, s₁, h₁, k₁⟩ := bind_some h
  obtain ⟨rfl, rfl⟩ := get_some h₁
  obtain ⟨pd, s₂, h₂, k₂⟩ := bind_some k₁
  obtain ⟨hsupply, htouch, hentry⟩ :=
    getOrCreate_of_absent h₂ hp R.tables R.kernelPdpt.1 (tableIndex_lt pa 30) (by decide)
  have hpd : IsTable pd := R.tables pd (hsupply ▸ List.mem_cons_self)
  obtain ⟨hsupply', htouch', hentry'⟩ :=
    storeEntry_spec k₂ hpd.1 (tableIndex_lt pa 21) (mmio_entry_lt hpa)
  refine ⟨pd, ?_, htouch.trans (htouch'.mono ?_), fun t j ht hj => ?_⟩
  · rw [hsupply, hsupply']
  · simp
  · rw [hentry' t j ht hj, hentry t j ht hj]

/-- The entries of the first gigabyte's page directory. -/
def identityEntry (i : Nat) : Nat := i <<< 21 ||| 0x83

theorem identityEntry_lt {i : Nat} (hi : i < 512) : identityEntry i < 2 ^ 64 := by
  apply Nat.or_lt_two_pow _ (by decide)
  rw [Nat.shiftLeft_eq]
  omega

/-- The tables `paging_init_kernel_map` leaves. -/
theorem pagingInitKernelMap_spec (htable : ∀ f ∈ s.supply, IsTable f) (hnodup : s.supply.Nodup)
    (h : pagingInitKernelMap s = some ((), s')) :
    ∃ pd, s.supply = s'.kernelPml4 :: s'.kernelPdpt :: pd :: s'.supply ∧
      s'.cr3 = s'.kernelPml4 ∧
      (∀ i < 512, s'.mem.entry s'.kernelPml4 i = if i = 0 then s'.kernelPdpt ||| 0x03 else 0) ∧
      (∀ i < 512, s'.mem.entry s'.kernelPdpt i = if i = 0 then pd ||| 0x03 else 0) ∧
      ∀ i < 512, s'.mem.entry pd i = identityEntry i := by
  unfold pagingInitKernelMap at h
  obtain ⟨pml4, s₁, h₁, k₁⟩ := bind_some h
  obtain ⟨q₁, -, e₁⟩ := allocFrame_spec h₁ fun f hf => (htable f hf).1
  obtain ⟨_, s₂, h₂, k₂⟩ := bind_some k₁
  cases h₂
  obtain ⟨pdpt, s₃, h₃, k₃⟩ := bind_some k₂
  have htable₁ : ∀ f ∈ s₁.supply, IsTable f :=
    fun f hf => htable f (q₁ ▸ List.mem_cons_of_mem _ hf)
  obtain ⟨q₃, T₃, e₃⟩ := allocFrame_spec h₃ fun f hf => (htable₁ f hf).1
  obtain ⟨_, s₄, h₄, k₄⟩ := bind_some k₃
  cases h₄
  obtain ⟨pd, s₅, h₅, k₅⟩ := bind_some k₄
  have htable₃ : ∀ f ∈ s₃.supply, IsTable f := by
    intro f hf
    exact htable₁ f (by rw [show s₁.supply = _ from q₃]; exact List.mem_cons_of_mem _ hf)
  obtain ⟨q₅, T₅, e₅⟩ := allocFrame_spec h₅ fun f hf => (htable₃ f hf).1
  have hall : s.supply = pml4 :: pdpt :: pd :: s₅.supply := by
    rw [q₁, show s₁.supply = _ from q₃, show s₃.supply = _ from q₅]
  have hpml4 : IsTable pml4 := htable pml4 (by simp [hall])
  have hpdpt : IsTable pdpt := htable pdpt (by simp [hall])
  have hpd : IsTable pd := htable pd (by simp [hall])
  rw [hall] at hnodup
  simp only [List.nodup_cons, List.mem_cons, not_or] at hnodup
  obtain ⟨⟨n₁₂, n₁₃, -⟩, ⟨n₂₃, -⟩, -⟩ := hnodup
  obtain ⟨_, s₆, h₆, k₆⟩ := bind_some k₅
  have hval : ∀ i v, (if i < 512 then some (identityEntry i) else none) = some v →
      v < 2 ^ 64 := by
    intro i v hv
    split at hv
    · rename_i hi
      rw [← Option.some.inj hv]
      exact identityEntry_lt hi
    · exact absurd hv (by simp)
  obtain ⟨q₆, T₆, e₆⟩ := forUpTo_fill h₆ (Nat.le_refl _) hpd.1 hval
    (fun i u u' hi _ hbody => Or.inl ⟨_, if_pos hi, hbody⟩)
  obtain ⟨_, s₇, h₇, k₇⟩ := bind_some k₆
  obtain ⟨q₇, T₇, e₇⟩ := storeEntry_spec h₇ hpdpt.1 (by decide) (or_lt hpd (by decide))
  obtain ⟨_, s₈, h₈, k₈⟩ := bind_some k₇
  obtain ⟨q₈, T₈, e₈⟩ := storeEntry_spec h₈ hpml4.1 (by decide) (or_lt hpdpt (by decide))
  cases k₈
  have hkernel : s₈.kernelPml4 = pml4 ∧ s₈.kernelPdpt = pdpt := by
    have hpml4' : s₅.kernelPml4 = pml4 := T₅.kernelPml4.trans T₃.kernelPml4
    refine ⟨?_, ?_⟩
    · rw [T₈.kernelPml4, T₇.kernelPml4, T₆.kernelPml4, hpml4']
    · rw [T₈.kernelPdpt, T₇.kernelPdpt, T₆.kernelPdpt, T₅.kernelPdpt]
  refine ⟨pd, ?_, hkernel.1.symm, fun i hi => ?_, fun i hi => ?_, fun i hi => ?_⟩
  · dsimp only
    rw [hkernel.1, hkernel.2, hall, q₈, q₇, q₆]
  · dsimp only
    have hf := hpml4.1
    rw [hkernel.1, hkernel.2, e₈ _ i hf hi, e₇ _ i hf hi, e₆ _ i hf hi, e₅ _ i hf hi]
    dsimp only
    rw [e₃ _ i hf hi]
    dsimp only
    rw [e₁ _ i hf hi]
    simp [n₁₂, n₁₃]
  · dsimp only
    have hf := hpdpt.1
    rw [hkernel.2, e₈ _ i hf hi, e₇ _ i hf hi, e₆ _ i hf hi, e₅ _ i hf hi]
    dsimp only
    rw [e₃ _ i hf hi]
    simp [Ne.symm n₁₂, n₂₃]
  · dsimp only
    have hf := hpd.1
    rw [e₈ _ i hf hi, e₇ _ i hf hi, e₆ _ i hf hi]
    simp [Ne.symm n₁₃, Ne.symm n₂₃, hi]

end Kernel

end NekaKernel.Paging
