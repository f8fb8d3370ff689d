/-
  Heap/Canonical.lean --- the heap has no history.

  Source: `heap.c`.

  A block list is determined by its used blocks, because the free ones are the
  gaps between them and `kfree` leaves no two free neighbours.  So it does not
  matter in which order blocks are freed, and freeing what was just allocated
  restores every header.
-/
import NekaKernel.Heap.WellFormed

set_option autoImplicit false

namespace NekaKernel.Heap

open NekaKernel.Foundation NekaKernel.Kernel

/-- The used blocks of a block list, as pairs of address and size. -/
def usedBlocks (bs : List BlockHeader) : List (Nat × Nat) :=
  (bs.filter fun b => b.free = 0).map fun b => (b.addr, b.size)

/-! ## Block lists are determined by their used blocks -/

theorem usedBlocks_headersOf {p n : Nat} {l : List Seg} :
    usedBlocks (headersOf p l n) = (usedSegs l).map fun b => (b.start, b.size) := by
  unfold usedBlocks usedSegs
  induction l generalizing p with
  | nil => rfl
  | cons s r ih =>
    cases hu : s.used <;> simp [headersOf, hu, ih]

/-- A used segment is its address and its size. -/
theorem mem_usedSegs_iff_pair {l : List Seg} {b : Seg} (hb : b.used = true) :
    b ∈ usedSegs l ↔ (b.start, b.size) ∈ (usedSegs l).map fun c => (c.start, c.size) := by
  constructor
  · intro h
    exact List.mem_map_of_mem h
  · intro h
    obtain ⟨c, hc, heq⟩ := List.mem_map.mp h
    have hcu := (mem_usedSegs.mp hc).2
    have : c = b := by
      cases b; cases c
      simp_all
    exact this ▸ hc

section Lists

variable {A : Arena} {s₁ s₂ : HeapState} {l₁ l₂ : List Seg}

/-- Two heaps in one arena with the same used segments are represented by the
same list. -/
theorem Represents.list_unique (R₁ : Represents A s₁ l₁) (R₂ : Represents A s₂ l₂)
    (hmem : ∀ b, b ∈ usedSegs l₁ ↔ b ∈ usedSegs l₂) : l₁ = l₂ := by
  have hused := usedSegs_eq_of_mem (by decide) R₁.tiles R₂.tiles hmem
  exact eq_of_used_eq (by decide) R₁.tiles R₂.tiles R₁.coalesced R₂.coalesced hused

theorem Represents.blockList_unique (R₁ : Represents A s₁ l₁) (R₂ : Represents A s₂ l₂)
    (hmem : ∀ b, b ∈ usedSegs l₁ ↔ b ∈ usedSegs l₂) : blockList s₁ = blockList s₂ := by
  rw [R₁.blockList_eq, R₂.blockList_eq, R₁.list_unique R₂ hmem]

/-- The same, for the headers that the loops visit. -/
theorem Represents.headers_unique (R₁ : Represents A s₁ l₁) (R₂ : Represents A s₂ l₂)
    (hmem : ∀ e, e ∈ usedBlocks (headersOf 0 l₁ 0) ↔ e ∈ usedBlocks (headersOf 0 l₂ 0)) :
    headersOf 0 l₁ 0 = headersOf 0 l₂ 0 := by
  simp only [usedBlocks_headersOf] at hmem
  have hsegs : ∀ b, b ∈ usedSegs l₁ ↔ b ∈ usedSegs l₂ := by
    intro b
    by_cases hb : b.used = true
    · rw [mem_usedSegs_iff_pair hb, mem_usedSegs_iff_pair hb]
      exact hmem _
    · simp [mem_usedSegs, hb]
  rw [R₁.list_unique R₂ hsegs]

end Lists

/-! ## Sequences of frees -/

/-- Freeing distinct live pointers one after the other always succeeds, and
leaves the other used blocks. -/
theorem WorldInv.kfree_list {A : Arena} {ps : List Nat} :
    ∀ {w : World} {l : List Seg}, WorldInv A w l → ps.Nodup → (∀ p ∈ ps, p ∈ w.pointers) →
      ∃ w' l', exec World.step w (ps.map Call.kfree) = some w' ∧ WorldInv A w' l' ∧
        ∀ b, b ∈ usedSegs l' ↔ b ∈ usedSegs l ∧ payload b ∉ ps := by
  induction ps with
  | nil =>
    intro w l I _ _
    exact ⟨w, l, rfl, I, by simp⟩
  | cons p ps ih =>
    intro w l I hnd hlive
    obtain ⟨hp, hndps⟩ := List.nodup_cons.mp hnd
    obtain ⟨pre, b, post, rfl, hu, rfl⟩ := I.find_block (hlive p List.mem_cons_self)
    obtain ⟨h₁, hstep, I₁⟩ := I.kfree_returns hu
    have hb : b ∈ usedSegs (pre ++ b :: post) := mem_usedSegs.mpr ⟨by simp, hu⟩
    have hrest : ∀ q ∈ ps, q ∈ World.pointers ⟨h₁, w.live.filter fun e => e.1 ≠ payload b⟩ := by
      intro q hq
      obtain ⟨e, he, rfl⟩ := List.mem_map.mp (hlive q (List.mem_cons_of_mem _ hq))
      refine List.mem_map_of_mem (List.mem_filter.mpr ⟨he, ?_⟩)
      simp only [decide_eq_true_eq]
      exact fun heq => hp (heq ▸ hq)
    obtain ⟨w', l', hexec, I', hused⟩ := ih I₁ hndps hrest
    refine ⟨w', l', ?_, I', ?_⟩
    · rw [List.map_cons, exec, hstep]
      exact hexec
    · intro c
      rw [hused, mem_usedSegs_release I.rep.tiles hu, List.mem_cons, not_or]
      constructor
      · rintro ⟨⟨hc, hne⟩, hcps⟩
        exact ⟨hc, fun heq => hne (I.block_unique hc hb heq), hcps⟩
      · rintro ⟨hc, hne, hcps⟩
        exact ⟨⟨hc, fun heq => hne (heq ▸ rfl)⟩, hcps⟩

/-- `kfree` of what `kmalloc` just returned. -/
theorem Represents.kfree_kmalloc {A : Arena} {s s' : HeapState} {l : List Seg}
    (R : Represents A s l) {n p : Nat} (h : kmalloc s n = (.ret p, s')) :
    ∃ s'', kfree s' p = (.ret (), s'') ∧ blockList s'' = blockList s := by
  by_cases hn : n = 0
  · -- `kmalloc(0)` is `NULL`, and `kfree(NULL)` does nothing
    simp only [kmalloc, hn, if_true, Prod.mk.injEq, Exit.ret.injEq] at h
    obtain ⟨rfl, rfl⟩ := h
    exact ⟨s, by simp [kfree], rfl⟩
  · rcases kmalloc_spec R hn with ⟨_, hoom⟩ | ⟨pre, b, post, h', rfl, hu, hle, _, hok, R'⟩
    · rw [hoom] at h
      simp at h
    · rw [hok] at h
      simp only [Prod.mk.injEq, Exit.ret.injEq] at h
      obtain ⟨rfl, rfl⟩ := h
      obtain ⟨f, r, _, hfstart, hcarve⟩ := cut_head b (totalNeeded n)
      obtain ⟨z, hz, _⟩ := usedSegs_carve b (totalNeeded n)
      have hr : usedSegs r = [] := by
        rw [hcarve, usedSegs_cons_used rfl, List.cons.injEq] at hz
        exact hz.2
      rw [hcarve, List.cons_append] at R'
      obtain ⟨s'', hfree, R''⟩ := kfree_spec R' rfl
      dsimp only at hfree
      rw [hfstart] at hfree
      refine ⟨s'', hfree, R''.blockList_unique R ?_⟩
      intro c
      rw [usedSegs_release, usedSegs_append, hr, List.nil_append, usedSegs_append,
        usedSegs_cons_free hu]

/-- The header of the heap that `heap_init` leaves. -/
def initialHeader (A : Arena) : BlockHeader := ⟨A.base, heapSize - sizeofBlock, 1, 0, 0⟩

theorem Represents.blockList_of_no_used {A : Arena} {s : HeapState} {l : List Seg}
    (R : Represents A s l) (hnone : ∀ b, b ∉ usedSegs l) :
    blockList s = some [initialHeader A] := by
  have R₀ := heapInit_spec A s.mem
  rw [R.blockList_unique R₀ (by intro b; simpa [usedSegs] using hnone b), R₀.blockList_eq]
  rfl

/-! ## Every run -/

/-- **Heap canonicity.**  In every reachable world the used blocks determine the
block list; hence freeing live pointers gives one block list in whatever order
they are freed, freeing what `kmalloc` just returned restores the block list,
and freeing everything leaves the single block of `heap_init`. -/
theorem heap_canonical (A : Arena) (w : World) (h : World.Reachable A w) :
    (∃ bs, blockList w.heap = some bs ∧ ∀ w', World.Reachable A w' →
      ∃ bs', blockList w'.heap = some bs' ∧
        ((∀ e, e ∈ usedBlocks bs ↔ e ∈ usedBlocks bs') → bs = bs')) ∧
    (∀ ps qs : List Nat, ps.Nodup → (∀ p ∈ ps, p ∈ w.pointers) → ps.Perm qs →
      ∃ w₁ w₂, exec World.step w (ps.map Call.kfree) = some w₁ ∧
        exec World.step w (qs.map Call.kfree) = some w₂ ∧
        blockList w₁.heap = blockList w₂.heap) ∧
    (∀ n p h₁, kmalloc w.heap n = (.ret p, h₁) →
      ∃ h₂, kfree h₁ p = (.ret (), h₂) ∧ blockList h₂ = blockList w.heap) ∧
    (∀ ps : List Nat, ps.Perm w.pointers →
      ∃ w', exec World.step w (ps.map Call.kfree) = some w' ∧
        blockList w'.heap = some [initialHeader A]) := by
  obtain ⟨l, I⟩ := worldInv_of_reach h
  refine ⟨⟨_, I.rep.blockList_eq, ?_⟩, ?_, ?_, ?_⟩
  · intro w' h'
    obtain ⟨l', I'⟩ := worldInv_of_reach h'
    exact ⟨_, I'.rep.blockList_eq, I.rep.headers_unique I'.rep⟩
  · intro ps qs hnd hlive hperm
    obtain ⟨w₁, l₁, hexec₁, I₁, hused₁⟩ := I.kfree_list hnd hlive
    obtain ⟨w₂, l₂, hexec₂, I₂, hused₂⟩ :=
      I.kfree_list (hperm.nodup_iff.mp hnd) (fun p hp => hlive p (hperm.mem_iff.mpr hp))
    refine ⟨w₁, w₂, hexec₁, hexec₂, I₁.rep.blockList_unique I₂.rep ?_⟩
    intro b
    rw [hused₁, hused₂, hperm.mem_iff]
  · intro n p h₁ hok
    exact I.rep.kfree_kmalloc hok
  · intro ps hperm
    obtain ⟨w', l', hexec, I', hused⟩ :=
      I.kfree_list (hperm.nodup_iff.mpr I.nodup) (fun p hp => hperm.mem_iff.mp hp)
    refine ⟨w', hexec, I'.rep.blockList_of_no_used ?_⟩
    intro b hb
    obtain ⟨hb, hfreed⟩ := (hused b).mp hb
    exact hfreed (hperm.mem_iff.mpr ((I.live _).mpr ⟨b, hb, rfl⟩))

/-- With one block of 100 bytes in use, freeing it gives back the whole heap. -/
theorem heap_canonical_first_alloc :
    ∃ w, w.live = [(0x200024, 100)] ∧ World.Reachable arenaAt2M w ∧
      ∃ w', exec World.step w [.kfree 0x200024] = some w' ∧
        blockList w'.heap = some [initialHeader arenaAt2M] := by
  obtain ⟨h', hreach⟩ := exists_first_alloc arenaAt2M (n := 100) (by decide)
    (by decide) (by decide)
  refine ⟨_, rfl, hreach, ?_⟩
  exact (heap_canonical arenaAt2M _ hreach).2.2.2 [0x200024] (List.Perm.refl _)

end NekaKernel.Heap
