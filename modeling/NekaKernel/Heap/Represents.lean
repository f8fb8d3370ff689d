/-
  Heap/Represents.lean --- what the bytes of the arena mean.

  `Represents A s l` says that the headers in memory spell the list `l`: it tiles
  the arena, no two neighbours are free, every field of every header is what the
  list says and every used block carries its magic word.  The lemmas after it
  read the loops of `heap.c` off the list, so that no later proof looks at a
  header again to know where a loop goes.
-/
import NekaKernel.Foundation.Tiling
import NekaKernel.Heap.Alloc

set_option autoImplicit false

namespace NekaKernel.Heap

open NekaKernel.Foundation NekaKernel.Kernel

/-! ## Linked segments -/

/-- The header of `b` is in memory, with `p` before it and `n` after it. -/
structure HeaderOk (m : Mem) (b : Seg) (p n : Nat) : Prop where
  size : size m b.start = b.size
  free : free m b.start = if b.used then 0 else 1
  next : next m b.start = n
  prev : prev m b.start = p
  magic : b.used = true → magicSlot m b.start = blockMagic

/-- The address of the first segment, or `n` when there is none. -/
def headAddr (n : Nat) : List Seg → Nat
  | [] => n
  | s :: _ => s.start

/-- The address of the last segment, or `p` when there is none. -/
def lastAddr : Nat → List Seg → Nat
  | p, [] => p
  | _, s :: r => lastAddr s.start r

/-- The segments are linked both ways in memory, from `p` before the first to
`n` after the last. -/
def Linked (m : Mem) : Nat → List Seg → Nat → Prop
  | _, [], _ => True
  | p, b :: r, n => HeaderOk m b p (headAddr n r) ∧ Linked m b.start r n

@[simp] theorem headAddr_nil (n : Nat) : headAddr n [] = n := rfl
@[simp] theorem headAddr_cons (n : Nat) (s : Seg) (r : List Seg) :
    headAddr n (s :: r) = s.start := rfl
@[simp] theorem lastAddr_nil (p : Nat) : lastAddr p [] = p := rfl
@[simp] theorem lastAddr_cons (p : Nat) (s : Seg) (r : List Seg) :
    lastAddr p (s :: r) = lastAddr s.start r := rfl
@[simp] theorem linked_nil (m : Mem) (p n : Nat) : Linked m p [] n := trivial
@[simp] theorem linked_cons {m : Mem} {p n : Nat} {b : Seg} {r : List Seg} :
    Linked m p (b :: r) n ↔ HeaderOk m b p (headAddr n r) ∧ Linked m b.start r n := Iff.rfl

theorem headAddr_append (n : Nat) (l₁ l₂ : List Seg) :
    headAddr n (l₁ ++ l₂) = headAddr (headAddr n l₂) l₁ := by
  cases l₁ <;> rfl

@[simp] theorem lastAddr_concat (p : Nat) (l : List Seg) (b : Seg) :
    lastAddr p (l ++ [b]) = b.start := by
  induction l generalizing p with
  | nil => rfl
  | cons s r ih => simpa using ih s.start

theorem linked_append {m : Mem} {p n : Nat} {l₁ l₂ : List Seg} :
    Linked m p (l₁ ++ l₂) n ↔
      Linked m p l₁ (headAddr n l₂) ∧ Linked m (lastAddr p l₁) l₂ n := by
  induction l₁ generalizing p with
  | nil => simp
  | cons s r ih =>
    simp only [List.cons_append, linked_cons, lastAddr_cons, headAddr_append, ih]
    tauto

/-- The links around one segment. -/
theorem linked_mid {m : Mem} {p n : Nat} {pre post : List Seg} {b : Seg} :
    Linked m p (pre ++ b :: post) n ↔
      Linked m p pre b.start ∧ HeaderOk m b (lastAddr p pre) (headAddr n post) ∧
        Linked m b.start post n := by
  rw [linked_append]
  simp

/-! ## Framing -/

/-- Every segment has room for the magic word. -/
def Roomy (l : List Seg) : Prop := ∀ b ∈ l, sizeofMagic ≤ b.size

theorem roomy_cons {b : Seg} {l : List Seg} :
    Roomy (b :: l) ↔ sizeofMagic ≤ b.size ∧ Roomy l := by simp [Roomy]

theorem roomy_append {l₁ l₂ : List Seg} : Roomy (l₁ ++ l₂) ↔ Roomy l₁ ∧ Roomy l₂ := by
  simp [Roomy, or_imp, forall_and]

/-- A header depends on the 36 bytes of its fields and its magic word. -/
theorem HeaderOk.congr {m m' : Mem} {b : Seg} {p n : Nat} (h : HeaderOk m b p n)
    (hagree : Mem.Agree m m' b.start (b.start + 36)) : HeaderOk m' b p n := by
  have field : ∀ off w : Nat, off + w ≤ 36 →
      m'.read (b.start + off) w = m.read (b.start + off) w :=
    fun off w hw => Mem.read_congr (hagree.mono (by omega) (by omega))
  exact
    { size := (field 0 8 (by omega)).trans h.size
      free := (field 8 4 (by omega)).trans h.free
      next := (field 16 8 (by omega)).trans h.next
      prev := (field 24 8 (by omega)).trans h.prev
      magic := fun hu => (field 32 4 (by omega)).trans (h.magic hu) }

/-- Linked segments survive any change outside the interval they tile. -/
theorem Linked.congr {m m' : Mem} {l : List Seg} :
    ∀ {lo hi p n : Nat}, Linked m p l n → Tiles sizeofBlock lo l hi → Roomy l →
      Mem.Agree m m' lo hi → Linked m' p l n := by
  induction l with
  | nil => intro lo hi p n _ _ _ _; trivial
  | cons b r ih =>
    intro lo hi p n hl ht hroom hagree
    obtain ⟨hhead, hrest⟩ := hl
    obtain ⟨hstart, htail⟩ := ht
    obtain ⟨hb, hr⟩ := roomy_cons.mp hroom
    have hle := htail.le
    simp only [sizeofBlock, sizeofMagic] at hle hb htail
    refine ⟨hhead.congr (hagree.mono (by omega) (by omega)), ?_⟩
    exact ih hrest htail hr (hagree.mono (by omega) (Nat.le_refl hi))

/-- Rewriting the back pointer of the first segment. -/
theorem Linked.setPrev_head {m : Mem} {b : Seg} {r : List Seg} {lo hi p p' n : Nat}
    (h : Linked m p (b :: r) n) (ht : Tiles sizeofBlock lo (b :: r) hi) (hroom : Roomy (b :: r))
    (hp : p' < 2 ^ 64) : Linked (setPrev m b.start p') p' (b :: r) n := by
  obtain ⟨hhead, hrest⟩ := h
  obtain ⟨hstart, htail⟩ := ht
  refine ⟨⟨?_, ?_, ?_, ?_, ?_⟩, ?_⟩
  · rw [← hhead.size]
    exact Mem.read_write_of_disjoint (by omega)
  · rw [← hhead.free]
    exact Mem.read_write_of_disjoint (by omega)
  · rw [← hhead.next]
    exact Mem.read_write_of_disjoint (by omega)
  · exact Mem.read_write_of_lt hp
  · intro hu
    rw [← hhead.magic hu]
    exact Mem.read_write_of_disjoint (by omega)
  · refine hrest.congr htail (roomy_cons.mp hroom).2 (Mem.agree_write ?_)
    simp only [sizeofBlock]
    omega

/-! ## The representation -/

/-- **The heap invariant.** -/
structure Represents (A : Arena) (s : HeapState) (l : List Seg) : Prop where
  list : s.heapList = A.base
  tiles : Tiles sizeofBlock A.base l A.top
  coalesced : Coalesced l
  roomy : Roomy l
  linked : Linked s.mem 0 l 0

namespace Represents

variable {A : Arena} {s : HeapState} {l : List Seg}

/-- The loops start at the first block. -/
theorem heapList_eq (R : Represents A s l) : s.heapList = headAddr 0 l := by
  rw [R.list]
  have htiles := R.tiles
  cases l with
  | nil =>
    have : A.base = A.base + heapSize := htiles
    simp [heapSize] at this
  | cons b r => exact htiles.1.symm

/-- A block is never at the null pointer, and its addresses are pointers. -/
theorem bounds (R : Represents A s l) {b : Seg} (hb : b ∈ l) :
    0 < b.start ∧ b.start + sizeofBlock + b.size ≤ A.top ∧ A.top < 2 ^ 64 := by
  have h := R.tiles.mem_bounds hb
  have hpos := A.base_pos
  exact ⟨by omega, h.2, A.in_range⟩

/-- There are far fewer blocks than iterations. -/
theorem length_lt (R : Represents A s l) : l.length < loopFuel := by
  have hsum := R.tiles.sum
  simp only [sizeofBlock, Arena.top, heapSize] at hsum
  simp only [loopFuel]
  omega

end Represents

/-! ## The loops -/

/-- The headers a linked list spells. -/
def headersOf : Nat → List Seg → Nat → List BlockHeader
  | _, [], _ => []
  | p, b :: r, n =>
      ⟨b.start, b.size, if b.used then 0 else 1, headAddr n r, p⟩ :: headersOf b.start r n

/-- What `find_free_block` looks for. -/
def fits (wanted : Nat) (b : Seg) : Bool := !b.used && decide (wanted ≤ b.size)

/-- The free bytes of a list. -/
def freeBytes (l : List Seg) : Nat := ((l.filter fun b => !b.used).map Seg.size).sum

theorem HeaderOk.headerAt_eq {m : Mem} {b : Seg} {p n : Nat} (h : HeaderOk m b p n) :
    headerAt m b.start = ⟨b.start, b.size, if b.used then 0 else 1, n, p⟩ := by
  simp [headerAt, h.size, h.free, h.next, h.prev]

theorem HeaderOk.free_ne_zero {m : Mem} {b : Seg} {p n : Nat} (h : HeaderOk m b p n) :
    Heap.free m b.start ≠ 0 ↔ b.used = false := by
  rw [h.free]
  cases b.used <;> simp

/-- `next` walks the list. -/
theorem blocksFrom_linked {m : Mem} {l : List Seg} :
    ∀ (fuel p : Nat), Linked m p l 0 → (∀ b ∈ l, 0 < b.start) → l.length < fuel →
      blocksFrom m fuel (headAddr 0 l) = some (headersOf p l 0) := by
  induction l with
  | nil =>
    intro fuel p _ _ hfuel
    obtain ⟨fuel, rfl⟩ := Nat.exists_eq_add_one_of_ne_zero (Nat.ne_of_gt hfuel)
    simp [blocksFrom, headersOf]
  | cons b r ih =>
    intro fuel p hl hpos hfuel
    obtain ⟨hhead, hrest⟩ := hl
    obtain ⟨fuel, rfl⟩ : ∃ k, fuel = k + 1 := ⟨fuel - 1, by simp at hfuel; omega⟩
    have hb : b.start ≠ 0 := Nat.ne_of_gt (hpos b (by simp))
    have hr := ih fuel b.start hrest (fun x hx => hpos x (by simp [hx])) (by simpa using hfuel)
    simp [blocksFrom, hb, hhead.next, hr, hhead.headerAt_eq, headersOf]

/-- `find_free_block` is first fit on the list. -/
theorem findFreeBlock_linked {m : Mem} {wanted : Nat} {l : List Seg} :
    ∀ (fuel p : Nat), Linked m p l 0 → (∀ b ∈ l, 0 < b.start) → l.length < fuel →
      findFreeBlock m wanted fuel (headAddr 0 l) =
        some (((l.find? (fits wanted)).map Seg.start).getD 0) := by
  induction l with
  | nil =>
    intro fuel p _ _ hfuel
    obtain ⟨fuel, rfl⟩ := Nat.exists_eq_add_one_of_ne_zero (Nat.ne_of_gt hfuel)
    simp [findFreeBlock]
  | cons b r ih =>
    intro fuel p hl hpos hfuel
    obtain ⟨hhead, hrest⟩ := hl
    obtain ⟨fuel, rfl⟩ : ∃ k, fuel = k + 1 := ⟨fuel - 1, by simp at hfuel; omega⟩
    have hb : b.start ≠ 0 := Nat.ne_of_gt (hpos b (by simp))
    have hr := ih fuel b.start hrest (fun x hx => hpos x (by simp [hx])) (by simpa using hfuel)
    have htest : (free m b.start ≠ 0 ∧ wanted ≤ size m b.start) ↔ fits wanted b = true := by
      rw [hhead.free_ne_zero, hhead.size]
      simp [fits]
    rw [headAddr_cons, findFreeBlock, if_neg hb, hhead.next, hr]
    by_cases hfit : fits wanted b = true
    · rw [if_pos (htest.mpr hfit), List.find?_cons_of_pos hfit]
      rfl
    · rw [if_neg (mt htest.mp hfit), List.find?_cons_of_neg hfit]

/-- `heap_free_bytes` adds up the free blocks; the total stays in `size_t`. -/
theorem freeBytesFrom_linked {m : Mem} {l : List Seg} :
    ∀ (fuel p total : Nat), Linked m p l 0 → (∀ b ∈ l, 0 < b.start) → l.length < fuel →
      total + freeBytes l < 2 ^ 64 →
      freeBytesFrom m fuel (headAddr 0 l) total = some (total + freeBytes l) := by
  induction l with
  | nil =>
    intro fuel p total _ _ hfuel _
    obtain ⟨fuel, rfl⟩ := Nat.exists_eq_add_one_of_ne_zero (Nat.ne_of_gt hfuel)
    simp [freeBytesFrom, freeBytes]
  | cons b r ih =>
    intro fuel p total hl hpos hfuel htotal
    obtain ⟨hhead, hrest⟩ := hl
    obtain ⟨fuel, rfl⟩ : ∃ k, fuel = k + 1 := ⟨fuel - 1, by simp at hfuel; omega⟩
    have hb : b.start ≠ 0 := Nat.ne_of_gt (hpos b (by simp))
    have hr := fun t => ih fuel b.start t hrest (fun x hx => hpos x (by simp [hx]))
      (by simpa using hfuel)
    rw [headAddr_cons, freeBytesFrom, if_neg hb, hhead.next]
    cases hu : b.used with
    | true =>
      have hsum : freeBytes (b :: r) = freeBytes r := by simp [freeBytes, hu]
      rw [hsum] at htotal ⊢
      rw [if_neg (by simp [hhead.free, hu]), hr total htotal]
    | false =>
      have hsum : freeBytes (b :: r) = b.size + freeBytes r := by simp [freeBytes, hu]
      rw [hsum] at htotal ⊢
      rw [if_pos (hhead.free_ne_zero.mpr hu), hhead.size, add64_of_lt (by omega),
        hr _ (by omega), Nat.add_assoc]

namespace Represents

variable {A : Arena} {s : HeapState} {l : List Seg}

theorem blockList_eq (R : Represents A s l) : blockList s = some (headersOf 0 l 0) := by
  unfold blockList
  rw [R.heapList_eq]
  exact blocksFrom_linked _ _ R.linked (fun b hb => (R.bounds hb).1) R.length_lt

theorem findFreeBlock_eq (R : Represents A s l) (wanted : Nat) :
    findFreeBlock s.mem wanted loopFuel s.heapList =
      some (((l.find? (fits wanted)).map Seg.start).getD 0) := by
  rw [R.heapList_eq]
  exact findFreeBlock_linked _ _ R.linked (fun b hb => (R.bounds hb).1) R.length_lt

end Represents

/-- Free and used sizes together are all sizes. -/
theorem freeBytes_add_used (l : List Seg) :
    freeBytes l + ((usedSegs l).map Seg.size).sum = (l.map Seg.size).sum := by
  induction l with
  | nil => rfl
  | cons b r ih =>
    cases hu : b.used <;> simp [freeBytes, usedSegs, hu] at ih ⊢ <;> omega

/-- Accounting: free bytes, used bytes and headers are the whole arena. -/
theorem Represents.accounting {A : Arena} {s : HeapState} {l : List Seg}
    (R : Represents A s l) :
    freeBytes l + ((usedSegs l).map Seg.size).sum + sizeofBlock * l.length = heapSize := by
  have hsum := R.tiles.sum
  rw [freeBytes_add_used]
  simp only [Arena.top] at hsum
  omega

theorem Represents.heapFreeBytes_eq {A : Arena} {s : HeapState} {l : List Seg}
    (R : Represents A s l) : heapFreeBytes s = some (freeBytes l) := by
  have hacc := R.accounting
  unfold heapFreeBytes
  rw [R.heapList_eq, freeBytesFrom_linked _ _ _ R.linked (fun b hb => (R.bounds hb).1)
    R.length_lt]
  · simp
  · simp only [heapSize] at hacc
    omega

end NekaKernel.Heap
