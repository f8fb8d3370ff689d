/-
  Paging/Effects.lean --- what the table builders write.

  Source: `paging64.c`.

  `Touches own s s'` says that all stores between `s` and `s'` went into the
  frames `own`, and that nothing else of memory changed.  Each function gets one
  lemma: the frames it took, the frames it touched and the entries it left.  The
  callers' lemmas are put together from these, and no function is opened twice.
-/
import NekaKernel.Paging.Tables

set_option autoImplicit false

namespace NekaKernel.Paging

open NekaKernel.Foundation NekaKernel.Kernel

/-- All stores from `s` to `s'` went into the frames `own`. -/
structure Touches (own : List Nat) (s s' : PageState) : Prop where
  kernelPml4 : s'.kernelPml4 = s.kernelPml4
  kernelPdpt : s'.kernelPdpt = s.kernelPdpt
  cr3 : s'.cr3 = s.cr3
  writes : ∃ new, s'.writes = new ++ s.writes ∧
    ∀ w ∈ new, ∃ f ∈ own, f ≤ w.1 ∧ w.1 + w.2 ≤ f + 4096
  mem : ∀ x, (∀ f ∈ own, ¬ InFrame f x) → s'.mem x = s.mem x

/-- The computation returns and takes at most `n` frames. -/
def Returns {α : Type} (n : Nat) (x : PagingM α) : Prop :=
  ∀ s : PageState, n ≤ s.supply.length →
    ∃ a s', x s = some (a, s') ∧ s.supply.length ≤ s'.supply.length + n

section Monad

variable {α β : Type} {x : PagingM α} {g : α → PagingM β} {s s' : PageState} {a b' : α} {b : β}

/-- A sequence that returns, taken apart. -/
theorem bind_some (h : (x >>= g) s = some (b, s')) :
    ∃ a s₁, x s = some (a, s₁) ∧ g a s₁ = some (b, s') := by
  obtain ⟨⟨a, s₁⟩, hx, hg⟩ := Option.bind_eq_some_iff.mp h
  exact ⟨a, s₁, hx, hg⟩

theorem bind_of_some {s₁ : PageState} (h : x s = some (a, s₁)) : (x >>= g) s = g a s₁ := by
  change (x s).bind (fun p => g p.1 p.2) = g a s₁
  rw [h]
  rfl

theorem pure_some (h : (pure a : PagingM α) s = some (b', s')) : a = b' ∧ s = s' := by
  cases h
  exact ⟨rfl, rfl⟩

theorem loadEntry_some {t i e : Nat} (h : loadEntry t i s = some (e, s')) :
    s.mem.entry t i = e ∧ s = s' :=
  Prod.mk.inj (Option.some.inj h)

theorem get_some {u : PageState} (h : (get : PagingM PageState) s = some (u, s')) :
    s = u ∧ s = s' := by
  cases h
  exact ⟨rfl, rfl⟩

/-- **The loop rule.** -/
theorem forUpTo_some {body : Nat → PagingM Unit} {I : Nat → PageState → Prop} :
    ∀ {n : Nat} {s s' : PageState}, forUpTo n body s = some ((), s') → I 0 s →
      (∀ i s s', i < n → I i s → body i s = some ((), s') → I (i + 1) s') → I n s' := by
  intro n
  induction n with
  | zero =>
    intro s s' h h0 _
    cases h
    exact h0
  | succ n ih =>
    intro s s' h h0 hstep
    obtain ⟨_, s₁, h₁, h₂⟩ := bind_some h
    refine hstep n s₁ s' (Nat.lt_succ_self n) ?_ h₂
    exact ih h₁ h0 fun i s s' hi => hstep i s s' (Nat.lt_succ_of_lt hi)

theorem Returns.bind {n k : Nat} (hx : Returns n x) (hg : ∀ a, Returns k (g a)) :
    Returns (k + n) (x >>= g) := by
  intro s hs
  obtain ⟨a, s₁, h₁, hlen₁⟩ := hx s (by omega)
  obtain ⟨b, s₂, h₂, hlen₂⟩ := hg a s₁ (by omega)
  exact ⟨b, s₂, (bind_of_some h₁).trans h₂, by omega⟩

theorem Returns.mono {n k : Nat} (hx : Returns n x) (h : n ≤ k) : Returns k x := by
  intro s hs
  obtain ⟨a, s', h', hlen⟩ := hx s (by omega)
  exact ⟨a, s', h', by omega⟩

theorem returns_pure (a : α) : Returns 0 (pure a : PagingM α) :=
  fun s _ => ⟨a, s, rfl, Nat.le_refl _⟩

theorem returns_modify (f : PageState → PageState) (hf : ∀ s, (f s).supply = s.supply) :
    Returns 0 (modify f : PagingM PUnit) :=
  fun s _ => ⟨(), f s, rfl, Nat.le_of_eq (congrArg List.length (hf s)).symm⟩

theorem returns_get : Returns 0 (get : PagingM PageState) :=
  fun s _ => ⟨s, s, rfl, Nat.le_refl _⟩

theorem returns_store (a n v : Nat) : Returns 0 (store a n v) :=
  fun _ _ => ⟨(), _, rfl, Nat.le_refl _⟩

theorem returns_loadEntry (t i : Nat) : Returns 0 (loadEntry t i) :=
  fun s _ => ⟨_, s, rfl, Nat.le_refl _⟩

theorem returns_forUpTo {body : Nat → PagingM Unit} (h : ∀ i, Returns 0 (body i)) :
    ∀ n, Returns 0 (forUpTo n body) := by
  intro n
  induction n with
  | zero => exact returns_pure ()
  | succ n ih => exact ih.bind fun _ => h n

theorem returns_takeFrame : Returns 1 takeFrame := by
  intro s hs
  unfold takeFrame
  cases hsupply : s.supply with
  | nil =>
    rw [hsupply] at hs
    exact absurd hs (by decide)
  | cons f rest => exact ⟨f, _, rfl, Nat.le_refl _⟩

end Monad

section Touches

variable {own own' : List Nat} {s s' s'' : PageState}

theorem Touches.refl (own : List Nat) (s : PageState) : Touches own s s :=
  ⟨rfl, rfl, rfl, ⟨[], rfl, by simp⟩, fun _ _ => rfl⟩

theorem Touches.mono (h : Touches own s s') (hsub : own ⊆ own') : Touches own' s s' := by
  refine ⟨h.kernelPml4, h.kernelPdpt, h.cr3, ?_, fun x hx => h.mem x fun f hf => hx f (hsub hf)⟩
  obtain ⟨new, hnew, hin⟩ := h.writes
  refine ⟨new, hnew, fun w hw => ?_⟩
  obtain ⟨f, hf, hbounds⟩ := hin w hw
  exact ⟨f, hsub hf, hbounds⟩

theorem Touches.trans (h : Touches own s s') (h' : Touches own s' s'') : Touches own s s'' := by
  refine ⟨h'.kernelPml4.trans h.kernelPml4, h'.kernelPdpt.trans h.kernelPdpt,
    h'.cr3.trans h.cr3, ?_, fun x hx => (h'.mem x hx).trans (h.mem x hx)⟩
  obtain ⟨new, hnew, hin⟩ := h.writes
  obtain ⟨new', hnew', hin'⟩ := h'.writes
  refine ⟨new' ++ new, by rw [hnew', hnew, List.append_assoc], fun w hw => ?_⟩
  rcases List.mem_append.mp hw with hw | hw
  · exact hin' w hw
  · exact hin w hw

/-- A table that is not among the frames touched keeps its entries. -/
theorem Touches.entry (h : Touches own s s') (hown : ∀ f ∈ own, IsFrame f) {t i : Nat}
    (ht : IsFrame t) (hnot : t ∉ own) (hi : i < 512) : s'.mem.entry t i = s.mem.entry t i := by
  apply Mem.entry_congr hi
  intro x hx
  refine h.mem x fun f hf hfx => hnot ?_
  rw [InFrame.unique ht (hown f hf) hx hfx]
  exact hf

end Touches

/-! ## Stores and frames -/

section Primitives

variable {s s' : PageState} {t i v : Nat}

theorem store_some {a n : Nat} (h : store a n v s = some ((), s')) :
    s' = { s with mem := s.mem.write a n v, writes := (a, n) :: s.writes } :=
  (congrArg Prod.snd (Option.some.inj h)).symm

theorem store_touches {a n : Nat} (h : store a n v s = some ((), s')) (hlo : t ≤ a)
    (hhi : a + n ≤ t + 4096) : s'.supply = s.supply ∧ Touches [t] s s' := by
  rw [store_some h]
  refine ⟨rfl, rfl, rfl, rfl, ⟨[(a, n)], rfl, ?_⟩, ?_⟩
  · intro w hw
    rw [List.mem_singleton] at hw
    subst hw
    exact ⟨t, List.mem_singleton_self t, hlo, hhi⟩
  · intro x hx
    have hout := hx t (List.mem_singleton_self t)
    unfold InFrame at hout
    apply Mem.write_outside
    omega

theorem storeEntry_spec (h : storeEntry t i v s = some ((), s')) (ht : IsFrame t) (hi : i < 512)
    (hv : v < 2 ^ 64) :
    s'.supply = s.supply ∧ Touches [t] s s' ∧
      ∀ t' j, IsFrame t' → j < 512 →
        s'.mem.entry t' j = if t' = t ∧ j = i then v else s.mem.entry t' j := by
  obtain ⟨hsupply, htouch⟩ := store_touches (t := t) h (by omega) (by omega)
  refine ⟨hsupply, htouch, fun t' j ht' hj => ?_⟩
  rw [store_some h]
  split
  · rename_i heq
    rw [heq.1, heq.2]
    exact Mem.entry_write_self hv
  · rename_i hne
    exact Mem.entry_write_of_ne ht ht' hi hj hne

theorem takeFrame_some {f : Nat} (h : takeFrame s = some (f, s')) :
    s' = { s with supply := s'.supply } ∧ s.supply = f :: s'.supply := by
  unfold takeFrame at h
  cases hsupply : s.supply with
  | nil =>
    rw [hsupply] at h
    cases h
  | cons g rest =>
    rw [hsupply] at h
    cases h
    exact ⟨rfl, rfl⟩

/-- **Filling a table.**  A loop whose iteration `i` stores `val i` in entry `i`
of one table, or does nothing where that is `none`. -/
theorem forUpTo_fill {body : Nat → PagingM Unit} {n q : Nat} {val : Nat → Option Nat}
    (h : forUpTo n body s = some ((), s')) (hn : n ≤ 512) (hq : IsFrame q)
    (hval : ∀ i v, val i = some v → v < 2 ^ 64)
    (hbody : ∀ i u u', i < n → Touches [q] s u → body i u = some ((), u') →
      (∃ v, val i = some v ∧ storeEntry q i v u = some ((), u')) ∨ (val i = none ∧ u' = u)) :
    s'.supply = s.supply ∧ Touches [q] s s' ∧
      ∀ t j, IsFrame t → j < 512 → s'.mem.entry t j =
        if t = q ∧ j < n then (val j).getD (s.mem.entry t j) else s.mem.entry t j := by
  refine forUpTo_some (I := fun k u => u.supply = s.supply ∧ Touches [q] s u ∧
    ∀ t j, IsFrame t → j < 512 → u.mem.entry t j =
      if t = q ∧ j < k then (val j).getD (s.mem.entry t j) else s.mem.entry t j) h ?_ ?_
  · exact ⟨rfl, Touches.refl _ _, by simp⟩
  · rintro i u u' hi ⟨hu, htouch, hentry⟩ hstep
    -- entry `i` is the one that joins
    have hsplit : ∀ t j, (t = q ∧ j < i + 1) ↔ (t = q ∧ j = i) ∨ (t = q ∧ j < i) := by
      intro t j
      omega
    rcases hbody i u u' hi htouch hstep with ⟨v, hv, hstore⟩ | ⟨hnone, rfl⟩
    · obtain ⟨hu', htouch', hentry'⟩ := storeEntry_spec hstore hq (by omega) (hval i v hv)
      refine ⟨hu'.trans hu, htouch.trans htouch', fun t j ht hj => ?_⟩
      rw [hentry' t j ht hj, hentry t j ht hj]
      simp only [hsplit]
      by_cases hji : t = q ∧ j = i
      · rw [if_pos hji, if_pos (Or.inl hji), hji.2, hv]
        rfl
      · simp only [hji, if_false, false_or]
    · refine ⟨hu, htouch, fun t j ht hj => ?_⟩
      rw [hentry t j ht hj]
      simp only [hsplit]
      by_cases hji : t = q ∧ j = i
      · rw [if_pos (Or.inl hji), hji.2, hnone, if_neg (fun h => Nat.lt_irrefl i h.2)]
        rfl
      · simp only [hji, false_or]

/-- `alloc_frame` takes the next frame and leaves it empty. -/
theorem allocFrame_spec {f : Nat} (h : allocFrame s = some (f, s'))
    (hframe : ∀ f ∈ s.supply, IsFrame f) :
    s.supply = f :: s'.supply ∧ Touches [f] s s' ∧
      ∀ t j, IsFrame t → j < 512 → s'.mem.entry t j = if t = f then 0 else s.mem.entry t j := by
  unfold allocFrame at h
  obtain ⟨g, s₁, h₁, k₁⟩ := bind_some h
  obtain ⟨hs₁, hsupply⟩ := takeFrame_some h₁
  obtain ⟨_, s₂, h₂, k₂⟩ := bind_some k₁
  obtain ⟨rfl, rfl⟩ := pure_some k₂
  have hf : IsFrame g := hframe g (hsupply ▸ List.mem_cons_self)
  have hzero : ∀ i v : Nat, (fun _ => some 0 : Nat → Option Nat) i = some v →
    v < 2 ^ 64 := by simp
  obtain ⟨hsupply', htouch, hentry⟩ := forUpTo_fill h₂ (Nat.le_refl _) hf hzero
    (fun i u u' _ _ hbody => Or.inl ⟨0, rfl, hbody⟩)
  rw [hs₁] at htouch hentry
  refine ⟨?_, ?_, fun t j ht hj => ?_⟩
  · rw [hsupply, hsupply']
  · exact ⟨htouch.kernelPml4, htouch.kernelPdpt, htouch.cr3, htouch.writes, htouch.mem⟩
  · rw [hentry t j ht hj]
    simp [hj]

/-- One iteration of `inherit_kernel_pdpt`. -/
theorem inherit_body {q : Nat} {u u' : PageState}
    (h : (do
      let kernelPdpt := (← get).kernelPdpt
      let e ← loadEntry kernelPdpt i
      if present e then storeEntry q i e : PagingM Unit) u = some ((), u')) :
    (present (u.mem.entry u.kernelPdpt i) = true ∧
      storeEntry q i (u.mem.entry u.kernelPdpt i) u = some ((), u')) ∨
    (¬ present (u.mem.entry u.kernelPdpt i) = true ∧ u' = u) := by
  obtain ⟨_, u₁, h₁, hrest⟩ := bind_some h
  obtain ⟨rfl, rfl⟩ := get_some h₁
  obtain ⟨e, u₂, h₂, hif⟩ := bind_some hrest
  obtain ⟨rfl, rfl⟩ := loadEntry_some h₂
  split at hif
  · rename_i hp
    exact Or.inl ⟨hp, hif⟩
  · rename_i hp
    exact Or.inr ⟨hp, (pure_some hif).2.symm⟩

/-- `inherit_kernel_pdpt` copies the entries that are present. -/
theorem inheritKernelPdpt_spec {q : Nat} (h : inheritKernelPdpt q s = some ((), s'))
    (hq : IsFrame q) (hk : IsFrame s.kernelPdpt) (hne : q ≠ s.kernelPdpt) :
    s'.supply = s.supply ∧ Touches [q] s s' ∧
      ∀ t j, IsFrame t → j < 512 → s'.mem.entry t j =
        if t = q ∧ present (s.mem.entry s.kernelPdpt j) = true then s.mem.entry s.kernelPdpt j
        else s.mem.entry t j := by
  have hval : ∀ i v, (if present (s.mem.entry s.kernelPdpt i) = true then
      some (s.mem.entry s.kernelPdpt i) else none) = some v → v < 2 ^ 64 := by
    intro i v hv
    split at hv
    · rw [← Option.some.inj hv]
      exact Mem.entry_lt _ _ _
    · exact absurd hv (by simp)
  unfold inheritKernelPdpt at h
  obtain ⟨hsupply, htouch, hentry⟩ := forUpTo_fill h (Nat.le_refl _) hq hval (by
    intro i u u' hi htouch hbody
    -- the kernel's table is not the one being filled
    have hsource : u.mem.entry u.kernelPdpt i = s.mem.entry s.kernelPdpt i := by
      rw [htouch.kernelPdpt]
      refine htouch.entry ?_ hk ?_ hi
      · simpa using hq
      · simpa using hne.symm
    rcases inherit_body hbody with ⟨hp, hstore⟩ | ⟨hp, hsame⟩
    · rw [hsource] at hp hstore
      exact Or.inl ⟨_, if_pos hp, hstore⟩
    · rw [hsource] at hp
      exact Or.inr ⟨if_neg hp, hsame⟩)
  refine ⟨hsupply, htouch, fun t j ht hj => ?_⟩
  rw [hentry t j ht hj]
  by_cases hp : present (s.mem.entry s.kernelPdpt j) = true <;> simp [hp, hj]

end Primitives

/-! ## Indices -/

theorem tableIndex_eq (a shift : Nat) : tableIndex a shift = a / 2 ^ shift % 512 := by
  unfold tableIndex
  rw [Nat.shiftRight_eq_div_pow]
  exact Nat.and_two_pow_sub_one_eq_mod _ 9

theorem tableIndex_lt (a shift : Nat) : tableIndex a shift < 512 := by
  rw [tableIndex_eq]
  exact Nat.mod_lt _ (by decide)

/-! ## Entries that point to frames -/

section Entries

variable {f flags : Nat}

/-- A frame's address fits the address field of an entry. -/
def IsTable (f : Nat) : Prop := IsFrame f ∧ f < 2 ^ 52

theorem or_lt (hf : IsTable f) (hflags : flags < 4096) : f ||| flags < 2 ^ 64 := by
  have hlt := hf.2
  rw [frame_or hf.1 hflags]
  omega

theorem pageMask_or (hf : IsTable f) (hflags : flags < 4096) : pageMask (f ||| flags) = f := by
  have hmod : f % 4096 = 0 := hf.1
  rw [pageMask_eq (or_lt hf hflags), frame_or hf.1 hflags]
  omega

theorem present_or (hf : IsTable f) : present (f ||| flags) = flags.testBit 0 :=
  frame_or_testBit hf.1 (by decide)

end Entries

/-! ## Walking down -/

section NextLevel

variable {s s' : PageState} {table idx flags r : Nat}

/-- An entry that is present is followed, whatever it is. -/
theorem getOrCreate_of_present (h : getOrCreateNextLevel table idx flags s = some (r, s'))
    (hp : present (s.mem.entry table idx) = true) :
    s' = s ∧ r = pageMask (s.mem.entry table idx) := by
  unfold getOrCreateNextLevel at h
  obtain ⟨e, s₁, h₁, h⟩ := bind_some h
  obtain ⟨rfl, rfl⟩ := loadEntry_some h₁
  rw [if_pos hp] at h
  obtain ⟨hr, hs⟩ := pure_some h
  exact ⟨hs.symm, hr.symm⟩

/-- The table below an entry that points to it. -/
theorem nextLevel_link {β : Type} {g : Nat → PagingM β} {b : β} {f bits : Nat}
    (h : (getOrCreateNextLevel table idx flags >>= g) s = some (b, s'))
    (he : s.mem.entry table idx = f ||| bits) (hf : IsTable f) (hbits : bits < 4096)
    (hp : bits.testBit 0 = true) : g f s = some (b, s') := by
  obtain ⟨t, s₁, h₁, k₁⟩ := bind_some h
  have hpresent : present (s.mem.entry table idx) = true := by rw [he, present_or hf, hp]
  obtain ⟨rfl, rfl⟩ := getOrCreate_of_present h₁ hpresent
  rwa [he, pageMask_or hf hbits] at k₁

/-- An entry that is not present gets an empty table. -/
theorem getOrCreate_of_absent (h : getOrCreateNextLevel table idx flags s = some (r, s'))
    (hp : present (s.mem.entry table idx) = false) (hframe : ∀ f ∈ s.supply, IsTable f)
    (ht : IsFrame table) (hidx : idx < 512) (hflags : flags < 4096) :
    s.supply = r :: s'.supply ∧ Touches [r, table] s s' ∧
      ∀ t j, IsFrame t → j < 512 → s'.mem.entry t j =
        if t = table ∧ j = idx then r ||| flags else if t = r then 0 else s.mem.entry t j := by
  unfold getOrCreateNextLevel at h
  obtain ⟨e, s₁, h₁, h⟩ := bind_some h
  obtain ⟨rfl, rfl⟩ := loadEntry_some h₁
  rw [if_neg (by simp [hp])] at h
  obtain ⟨n, s₂, h₂, h⟩ := bind_some h
  obtain ⟨hsupply, htouch₂, hentry₂⟩ := allocFrame_spec h₂ fun f hf => (hframe f hf).1
  have hn : IsTable n := hframe n (hsupply ▸ List.mem_cons_self)
  obtain ⟨_, s₃, h₃, h⟩ := bind_some h
  obtain ⟨hsupply₃, htouch₃, hentry₃⟩ := storeEntry_spec h₃ ht hidx (or_lt hn hflags)
  obtain ⟨e', s₄, h₄, h⟩ := bind_some h
  obtain ⟨rfl, rfl⟩ := loadEntry_some h₄
  obtain ⟨hr, rfl⟩ := pure_some h
  rw [hentry₃ table idx ht hidx, if_pos ⟨rfl, rfl⟩, pageMask_or hn hflags] at hr
  rw [← hr]
  refine ⟨?_, ?_, fun t j ht' hj => ?_⟩
  · rw [hsupply, hsupply₃]
  · refine (htouch₂.mono ?_).trans (htouch₃.mono ?_) <;> simp
  · rw [hentry₃ t j ht' hj, hentry₂ t j ht' hj]

end NextLevel

/-! ## How many frames the functions take -/

theorem returns_storeEntry (t i v : Nat) : Returns 0 (storeEntry t i v) := returns_store _ _ _

theorem returns_allocFrame : Returns 1 allocFrame := by
  unfold allocFrame
  refine returns_takeFrame.bind fun f => ?_
  exact (returns_forUpTo (fun i => returns_storeEntry f i 0) 512).bind fun _ => returns_pure f

theorem returns_inheritKernelPdpt (q : Nat) : Returns 0 (inheritKernelPdpt q) := by
  unfold inheritKernelPdpt
  refine returns_forUpTo (fun i => ?_) 512
  refine returns_get.bind fun s => (returns_loadEntry _ _).bind fun e => ?_
  split
  · exact returns_storeEntry _ _ _
  · exact returns_pure ()

theorem returns_getOrCreateNextLevel (table idx flags : Nat) :
    Returns 1 (getOrCreateNextLevel table idx flags) := by
  unfold getOrCreateNextLevel
  refine (returns_loadEntry _ _).bind fun e => ?_
  split
  · exact (returns_pure _).mono (Nat.zero_le 1)
  · refine returns_allocFrame.bind fun n => ?_
    refine (returns_storeEntry _ _ _).bind fun _ => ?_
    exact (returns_loadEntry _ _).bind fun e => returns_pure _

theorem returns_pagingMapMmio2mb (pa : Nat) : Returns 1 (pagingMapMmio2mb pa) := by
  unfold pagingMapMmio2mb
  refine returns_get.bind fun s => ?_
  refine (returns_getOrCreateNextLevel _ _ _).bind fun pd => ?_
  exact returns_storeEntry _ _ _

theorem returns_mapUserPage (pml4 va frame : Nat) : Returns 3 (mapUserPage pml4 va frame) := by
  unfold mapUserPage
  refine (returns_getOrCreateNextLevel _ _ _).bind fun pdpt => ?_
  refine (returns_getOrCreateNextLevel _ _ _).bind fun pd => ?_
  refine (returns_getOrCreateNextLevel _ _ _).bind fun pt => ?_
  exact returns_storeEntry _ _ _

theorem returns_createAddressSpace : Returns 5 createAddressSpace := by
  unfold createAddressSpace
  refine returns_allocFrame.bind fun pml4 => returns_allocFrame.bind fun pdpt => ?_
  refine returns_allocFrame.bind fun pd => returns_allocFrame.bind fun pt => ?_
  refine returns_allocFrame.bind fun frame => ?_
  refine (returns_inheritKernelPdpt pdpt).bind fun _ => ?_
  refine (returns_storeEntry _ _ _).bind fun _ => (returns_storeEntry _ _ _).bind fun _ => ?_
  refine (returns_storeEntry _ _ _).bind fun _ => (returns_storeEntry _ _ _).bind fun _ => ?_
  exact returns_pure pml4

theorem returns_createUserProcess : Returns 10 createUserProcess := by
  unfold createUserProcess
  refine returns_allocFrame.bind fun pml4 => returns_allocFrame.bind fun pdpt => ?_
  refine (returns_inheritKernelPdpt pdpt).bind fun _ =>
    (returns_storeEntry _ _ _).bind fun _ => ?_
  refine returns_allocFrame.bind fun code => returns_allocFrame.bind fun stack => ?_
  refine (returns_forUpTo (fun i => returns_store _ _ _) _).bind fun _ => ?_
  refine (returns_mapUserPage _ _ _).bind fun _ => (returns_mapUserPage _ _ _).bind fun _ => ?_
  exact returns_pure pml4

theorem returns_pagingInitKernelMap : Returns 3 pagingInitKernelMap := by
  unfold pagingInitKernelMap
  refine returns_allocFrame.bind fun pml4 => ?_
  refine Returns.bind (n := 0) (returns_modify _ ?_) fun _ => ?_
  · exact fun _ => rfl
  refine returns_allocFrame.bind fun pdpt => ?_
  refine Returns.bind (n := 0) (returns_modify _ ?_) fun _ => ?_
  · exact fun _ => rfl
  refine returns_allocFrame.bind fun pd => ?_
  refine (returns_forUpTo (fun i => returns_storeEntry _ _ _) 512).bind fun _ => ?_
  refine (returns_storeEntry _ _ _).bind fun _ => (returns_storeEntry _ _ _).bind fun _ => ?_
  refine returns_modify _ ?_
  exact fun _ => rfl

end NekaKernel.Paging
