/-
  Heap/WellFormed.lean --- the representation invariant, read off the headers.

  Source: `heap.c`; the callers are those of `Heap/World.lean`.

  `Represents` speaks of a list of segments that no pointer of the kernel ever
  sees.  Here the same facts are stated of the headers that the loops of
  `heap.c` visit, and `heap_wellFormed` says that they hold after every sequence
  of calls.
-/
import NekaKernel.Heap.World

set_option autoImplicit false

namespace NekaKernel.Heap

open NekaKernel.Foundation NekaKernel.Kernel

/-! ## The statement -/

/-- Where `next` of a block must point: to the byte after its payload, and to
`NULL` exactly at the end of the arena. -/
def nextOf (top : Nat) (b : BlockHeader) : Nat :=
  if b.addr + sizeofBlock + b.size = top then 0 else b.addr + sizeofBlock + b.size

/-- The sizes of the used blocks together. -/
def usedBytes (bs : List BlockHeader) : Nat :=
  ((bs.filter fun b => b.free = 0).map BlockHeader.size).sum

/-- **The representation invariant** of a heap whose `next` pointers visit the
headers `bs`. -/
structure WellFormed (A : Arena) (s : HeapState) (bs : List BlockHeader) : Prop where
  visits : blockList s = some bs
  first : s.heapList = A.base ∧ ∃ b ∈ bs.head?, b.addr = A.base ∧ b.prev = 0
  inside : ∀ b ∈ bs, A.base ≤ b.addr ∧ b.addr + sizeofBlock + b.size ≤ A.top
  next : ∀ b ∈ bs, b.next = nextOf A.top b
  last : ∀ b ∈ bs.getLast?, b.addr + sizeofBlock + b.size = A.top
  inverse : bs.IsChain fun b c => b.next = c.addr ∧ c.prev = b.addr
  flag : ∀ b ∈ bs, b.free = 0 ∨ b.free = 1
  coalesced : bs.IsChain fun b c => b.free = 0 ∨ c.free = 0
  magic : ∀ b ∈ bs, b.free = 0 → magicSlot s.mem b.addr = blockMagic
  roomy : ∀ b ∈ bs, sizeofMagic ≤ b.size
  accounting : ∃ total, heapFreeBytes s = some total ∧
    total + usedBytes bs + sizeofBlock * bs.length = heapSize

/-! ## From segments to headers -/

section Headers

variable {lo hi p n : Nat} {l : List Seg}

theorem mem_headersOf {b : BlockHeader} (h : b ∈ headersOf p l n) :
    ∃ s ∈ l, b.addr = s.start ∧ b.size = s.size ∧ b.free = if s.used then 0 else 1 := by
  induction l generalizing p with
  | nil => simp [headersOf] at h
  | cons s r ih =>
    rcases List.mem_cons.mp h with rfl | h
    · exact ⟨s, List.mem_cons_self, rfl, rfl, rfl⟩
    · obtain ⟨t, ht, hfields⟩ := ih h
      exact ⟨t, List.mem_cons_of_mem s ht, hfields⟩

@[simp] theorem length_headersOf : (headersOf p l n).length = l.length := by
  induction l generalizing p with
  | nil => rfl
  | cons s r ih => simp [headersOf, ih]

/-- The successor of a segment starts where the segment ends. -/
theorem next_headersOf (t : Tiles sizeofBlock lo l hi) {b : BlockHeader}
    (h : b ∈ headersOf p l 0) : b.next = nextOf hi b := by
  induction l generalizing lo p with
  | nil => simp [headersOf] at h
  | cons s r ih =>
    obtain ⟨hs, tr⟩ := t
    rcases List.mem_cons.mp h with rfl | h
    · unfold nextOf
      dsimp only
      cases r with
      | nil =>
        have hend : lo + sizeofBlock + s.size = hi := tr
        rw [hs, if_pos hend]
        rfl
      | cons c r =>
        have hle := tr.2.le
        have hc : c.start = lo + sizeofBlock + s.size := tr.1
        rw [hs, headAddr_cons, if_neg (by simp only [sizeofBlock] at hle ⊢; omega), hc]
    · exact ih tr h

theorem getLast_headersOf (t : Tiles sizeofBlock lo l hi) :
    ∀ b ∈ (headersOf p l n).getLast?, b.addr + sizeofBlock + b.size = hi := by
  induction l generalizing lo p with
  | nil => simp [headersOf]
  | cons s r ih =>
    obtain ⟨hs, tr⟩ := t
    cases r with
    | nil =>
      intro b hb
      simp only [headersOf, List.getLast?_singleton, Option.mem_def, Option.some.injEq] at hb
      subst hb
      dsimp only
      rw [hs]
      exact tr
    | cons c r =>
      intro b hb
      exact ih tr b (by simpa [headersOf] using hb)

/-- The two links between neighbours agree. -/
theorem inverse_headersOf :
    (headersOf p l n).IsChain fun b c => b.next = c.addr ∧ c.prev = b.addr := by
  induction l generalizing p with
  | nil => exact List.IsChain.nil
  | cons s r ih =>
    refine List.isChain_cons.mpr ⟨?_, ih⟩
    intro c hc
    cases r with
    | nil => simp [headersOf] at hc
    | cons t r =>
      simp only [headersOf, List.head?_cons, Option.mem_def, Option.some.injEq] at hc
      subst hc
      exact ⟨rfl, rfl⟩

theorem coalesced_headersOf (c : Coalesced l) :
    (headersOf p l n).IsChain fun b c => b.free = 0 ∨ c.free = 0 := by
  induction l generalizing p with
  | nil => exact List.IsChain.nil
  | cons s r ih =>
    refine List.isChain_cons.mpr ⟨?_, ih c.of_cons⟩
    intro b hb
    cases r with
    | nil => simp [headersOf] at hb
    | cons t r =>
      simp only [headersOf, List.head?_cons, Option.mem_def, Option.some.injEq] at hb
      subst hb
      rcases (coalesced_cons_cons.mp c).1 with hused | hused
      · exact Or.inl (by simp [hused])
      · exact Or.inr (by simp [hused])

theorem usedBytes_headersOf :
    usedBytes (headersOf p l n) = ((usedSegs l).map Seg.size).sum := by
  unfold usedBytes usedSegs
  induction l generalizing p with
  | nil => rfl
  | cons s r ih =>
    cases hu : s.used <;> simp [headersOf, hu, ih]

end Headers

/-- A represented heap has well-formed headers. -/
theorem Represents.wellFormed {A : Arena} {s : HeapState} {l : List Seg}
    (R : Represents A s l) :
    WellFormed A s (headersOf 0 l 0) := by
  have hfirst : ∃ b ∈ (headersOf 0 l 0).head?, b.addr = A.base ∧ b.prev = 0 := by
    have hhead := R.heapList_eq
    cases l with
    | nil =>
      have hbase : A.base = 0 := R.list.symm.trans hhead
      exact absurd hbase (Nat.ne_of_gt A.base_pos)
    | cons b r => exact ⟨_, rfl, R.tiles.1, rfl⟩
  have hmagic : ∀ b ∈ headersOf 0 l 0, b.free = 0 → magicSlot s.mem b.addr = blockMagic := by
    intro b hb hfree
    obtain ⟨t, ht, haddr, _, hflag⟩ := mem_headersOf hb
    have hused : t.used = true := by
      by_contra hne
      simp [hne, hfree] at hflag
    obtain ⟨pre, post, rfl⟩ := List.append_of_mem ht
    rw [haddr]
    exact (linked_mid.mp R.linked).2.1.magic hused
  refine
    { visits := R.blockList_eq
      first := ⟨R.list, hfirst⟩
      inside := ?_
      next := fun b hb => next_headersOf R.tiles hb
      last := getLast_headersOf R.tiles
      inverse := inverse_headersOf
      flag := ?_
      coalesced := coalesced_headersOf R.coalesced
      magic := hmagic
      roomy := ?_
      accounting := ⟨freeBytes l, R.heapFreeBytes_eq, ?_⟩ }
  · intro b hb
    obtain ⟨t, ht, haddr, hsize, _⟩ := mem_headersOf hb
    rw [haddr, hsize]
    exact R.tiles.mem_bounds ht
  · intro b hb
    obtain ⟨t, _, _, _, hflag⟩ := mem_headersOf hb
    rw [hflag]
    cases t.used
    · exact Or.inr rfl
    · exact Or.inl rfl
  · intro b hb
    obtain ⟨t, ht, _, hsize, _⟩ := mem_headersOf hb
    rw [hsize]
    exact R.roomy t ht
  · rw [usedBytes_headersOf, length_headersOf]
    exact R.accounting

/-! ## Every run -/

/-- **Heap representation invariant.**  After every sequence of `kmalloc`,
`kfree` of live pointers and writes into live payloads, the headers are
well formed, and the next call ends: `kmalloc` with a pointer or out of memory
with the heap untouched, `kfree` of a live pointer with a return. -/
theorem heap_wellFormed (A : Arena) (w : World) (h : World.Reachable A w) :
    (∃ bs, WellFormed A w.heap bs) ∧
    (∀ n, (∃ p h', kmalloc w.heap n = (.ret p, h')) ∨
      kmalloc w.heap n = (.panic .HEAP panicHeapOom, w.heap)) ∧
    ∀ p ∈ w.pointers, ∃ h', kfree w.heap p = (.ret (), h') := by
  obtain ⟨l, I⟩ := worldInv_of_reach h
  refine ⟨⟨_, I.rep.wellFormed⟩, I.kmalloc_ends, ?_⟩
  intro p hp
  obtain ⟨pre, b, post, rfl, hu, rfl⟩ := I.find_block hp
  obtain ⟨h', hok, _⟩ := kfree_spec I.rep hu
  exact ⟨h', hok⟩

/-- A heap with one block of 100 bytes in use. -/
theorem heap_wellFormed_first_alloc :
    ∃ w, w.live = [(0x200024, 100)] ∧ World.Reachable arenaAt2M w ∧
      ∃ bs, WellFormed arenaAt2M w.heap bs := by
  obtain ⟨h', hreach⟩ := exists_first_alloc arenaAt2M (n := 100) (by decide)
    (by decide) (by decide)
  exact ⟨_, rfl, hreach, (heap_wellFormed arenaAt2M _ hreach).1⟩

end NekaKernel.Heap
