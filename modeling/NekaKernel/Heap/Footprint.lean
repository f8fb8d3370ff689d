/-
  Heap/Footprint.lean --- where `kmalloc` and `kfree` go in memory.

  Source: `heap.c`, access by access as in `Heap/Accesses.lean`.

  Of a used block both calls look at the flag and the links and at nothing else: not
  at its size, and not at what its owner keeps in it.  So they meet no byte of an
  allocation that stays live, neither with a load nor with a store.
-/
import NekaKernel.Heap.Accesses

set_option autoImplicit false

namespace NekaKernel.Heap

open NekaKernel.Foundation NekaKernel.Foundation.Program NekaKernel.Kernel

/-! ## What used blocks keep -/

/-- The bytes that belong to used blocks: the size fields, and the payloads behind the
magic words. -/
def Owned (l : List Seg) (x : Nat) : Prop :=
  ∃ c ∈ l, c.used = true ∧ (c.start ≤ x ∧ x < c.start + 8 ∨
    c.start + sizeofBlock + sizeofMagic ≤ x ∧ x < c.start + sizeofBlock + c.size)

/-- `P` has no flag and no link of a block of the list, and nothing of the free ones. -/
structure Clear (P : Nat → Prop) (l : List Seg) : Prop where
  header : ∀ c ∈ l, Misses P (c.start + 8) 24
  free : ∀ c ∈ l, c.used = false → Misses P c.start (sizeofBlock + c.size)

section Lists

variable {P : Nat → Prop} {lo hi : Nat} {l pre post : List Seg} {b n : Seg}

theorem clear_owned (t : Tiles sizeofBlock lo l hi) : Clear (Owned l) l := by
  have hother : ∀ {c d : Seg}, c ∈ l → d ∈ l → ∀ {x : Nat}, c.start ≤ x →
      x < c.start + sizeofBlock + c.size → d.start ≤ x →
      x < d.start + sizeofBlock + d.size → c = d := by
    intro c d hc hd x hcx hcx' hdx hdx'
    rcases Classical.em (c = d) with h | hne
    · exact h
    · rcases t.apart_of_ne hc hd hne with hlt | hlt <;> omega
  refine ⟨fun c hc x hlo hhi => ?_, fun c hc hfree x hlo hhi => ?_⟩
    <;> rintro ⟨d, hd, hused, hx⟩
  · obtain rfl : c = d := by
      refine hother hc hd ?_ ?_ ?_ ?_ (x := x) <;> unfold sizeofBlock sizeofMagic at * <;> omega
    unfold sizeofBlock sizeofMagic at hx
    omega
  · obtain rfl : c = d := by
      refine hother hc hd ?_ ?_ ?_ ?_ (x := x) <;> unfold sizeofBlock sizeofMagic at * <;> omega
    rw [hfree] at hused
    cases hused

theorem Clear.sub {l' : List Seg} (h : Clear P l) (hsub : ∀ c ∈ l', c ∈ l) : Clear P l' :=
  ⟨fun c hc => h.header c (hsub c hc), fun c hc => h.free c (hsub c hc)⟩

/-- The flag of any block, and its links. -/
theorem Clear.flag (h : Clear P l) {c : Seg} (hc : c ∈ l) : Misses P (c.start + 8) 4 :=
  (h.header c hc).sub (Nat.le_refl _) (by omega)

theorem Clear.nextLink (h : Clear P l) {c : Seg} (hc : c ∈ l) : Misses P (c.start + 16) 8 :=
  (h.header c hc).sub (by omega) (by omega)

theorem Clear.prevLink (h : Clear P l) {c : Seg} (hc : c ∈ l) : Misses P (c.start + 24) 8 :=
  (h.header c hc).sub (by omega) (by omega)

/-- The size of a free block. -/
theorem Clear.sizeField (h : Clear P l) {c : Seg} (hc : c ∈ l) (hfree : c.used = false) :
    Misses P c.start 8 := by
  refine (h.free c hc hfree).sub (Nat.le_refl _) ?_
  unfold sizeofBlock
  omega

/-- Two free blocks next to each other are one. -/
theorem Clear.joinForward (h : Clear P (pre ++ b :: post))
    (t : Tiles sizeofBlock lo (b :: post) hi) (hb : b.used = false) :
    Clear P (pre ++ joinForward b post) := by
  cases post with
  | nil => exact h
  | cons n r =>
    rw [Heap.joinForward]
    split
    · exact h
    · rename_i hn
      have hbl : b ∈ pre ++ b :: n :: r := by simp
      have hnl : n ∈ pre ++ b :: n :: r := by simp
      have hjoined : ∀ c ∈ pre ++ { b with size := b.size + sizeofBlock + n.size } :: r,
          c = { b with size := b.size + sizeofBlock + n.size } ∨ c ∈ pre ++ b :: n :: r := by
        intro c hc
        simp only [List.mem_append, List.mem_cons] at hc ⊢
        tauto
      have hstart : n.start = b.start + sizeofBlock + b.size := by
        rw [t.1]
        exact t.2.1
      refine ⟨fun c hc => ?_, fun c hc hfree => ?_⟩
      · rcases hjoined c hc with rfl | hold
        · exact h.header b hbl
        · exact h.header c hold
      · rcases hjoined c hc with rfl | hold
        · intro x hlo hhi
          dsimp only at hlo hhi
          rcases Nat.lt_or_ge x n.start with hlt | hge
          · exact h.free b hbl hb x hlo (by omega)
          · exact h.free n hnl (by simpa using hn) x hge (by omega)
        · exact h.free c hold hfree

end Lists

/-! ## The accesses -/

section Accesses

variable {P : Nat → Prop} {m : Mem} {lo hi p : Nat} {pre post : List Seg} {b : Seg}

/-- `find_free_block` looks at flags and links, and at the sizes of free blocks. -/
theorem avoids_findFreeBlock {wanted : Nat} {l : List Seg} :
    ∀ {p fuel : Nat}, Linked m p l 0 → Clear P l → (∀ c ∈ l, c.start ≠ 0) →
      (findFreeBlockAccesses wanted fuel (headAddr 0 l)).Avoids P m := by
  induction l with
  | nil =>
    intro p fuel _ _ _
    cases fuel <;> exact avoids_pure _
  | cons c r ih =>
    intro p fuel hlinked hclear hpos
    cases fuel with
    | zero => exact avoids_pure _
    | succ fuel =>
      obtain ⟨hhead, hrest⟩ := hlinked
      have hc : c ∈ c :: r := List.mem_cons_self
      have hnext : (do
          let n ← word (c.start + 16) 8
          findFreeBlockAccesses wanted fuel n).Avoids P m := by
        refine Avoids.word_bind (hclear.nextLink hc) ?_
        have hn : m.read (c.start + 16) 8 = headAddr 0 r := hhead.next
        rw [hn]
        exact ih hrest (hclear.sub fun d hd => List.mem_cons_of_mem _ hd)
          fun d hd => hpos d (List.mem_cons_of_mem _ hd)
      rw [headAddr_cons, findFreeBlockAccesses, if_neg (hpos c hc)]
      refine Avoids.word_bind (hclear.flag hc) (Avoids.ite (fun hflag => ?_) fun _ => hnext)
      have hfree : c.used = false := hhead.free_ne_zero.mp hflag
      exact Avoids.word_bind (hclear.sizeField hc hfree)
        (Avoids.ite (fun _ => avoids_pure _) fun _ => hnext)

/-- `if (b->next) b->next->prev = ..` looks at the two links. -/
theorem avoids_relink (post : List Seg) {a v : Nat} (ha : Misses P (a + 16) 8)
    (hnext : next m a = headAddr 0 post) (hclear : Clear P post) :
    (relinkAccesses a v).Avoids P m := by
  unfold relinkAccesses
  have hn : m.read (a + 16) 8 = headAddr 0 post := hnext
  refine Avoids.word_bind ha ?_
  refine Avoids.ite (fun hne => ?_) fun _ => avoids_pure _
  refine Avoids.word_bind ha ?_
  refine avoids_put ?_
  rw [hn] at hne ⊢
  cases post with
  | nil => exact absurd rfl hne
  | cons c r => exact hclear.prevLink List.mem_cons_self

/-- `split_block` writes into the free block and to the link of the next one. -/
theorem avoids_splitBlock {wanted : Nat} (h : HeaderOk m b p (headAddr 0 post))
    (hclear : Clear P (b :: post)) (hu : b.used = false) (hle : wanted ≤ b.size)
    (hend : b.start + sizeofBlock + b.size < 2 ^ 64) :
    (splitBlockAccesses b.start wanted).Avoids P m := by
  have hb : b ∈ b :: post := List.mem_cons_self
  have hin : ∀ {a n : Nat}, b.start ≤ a → a + n ≤ b.start + (sizeofBlock + b.size) →
      Misses P a n :=
    fun hlo hhi => (hclear.free b hb hu).sub hlo hhi
  have hsize : m.read b.start 8 = b.size := h.size
  have hremaining : sub64 b.size wanted = b.size - wanted := sub64_of_le hle (by omega)
  have hnew : add64 (add64 b.start sizeofBlock) wanted = b.start + sizeofBlock + wanted := by
    rw [add64_of_lt (a := b.start) (by omega), add64_of_lt (by omega)]
  unfold splitBlockAccesses
  refine Avoids.word_bind (hclear.sizeField hb hu) ?_
  rw [hsize, hremaining]
  refine Avoids.ite (fun _ => avoids_pure _) fun hbig => ?_
  rw [hnew]
  unfold sizeofBlock at *
  refine Avoids.put_bind (hin ?_ ?_) ?_
  · omega
  · omega
  refine Avoids.put_bind (hin ?_ ?_) ?_
  · omega
  · omega
  refine Avoids.word_bind (hclear.nextLink hb) ?_
  refine Avoids.put_bind (hin ?_ ?_) ?_
  · omega
  · omega
  refine Avoids.put_bind (hin ?_ ?_) ?_
  · omega
  · omega
  -- the stores behind the first piece have left its link as it was
  refine Avoids.bind (avoids_relink post (hclear.nextLink hb) ?_
    (hclear.sub fun c hc => List.mem_cons_of_mem _ hc)) ?_
  · refine Eq.trans ?_ h.next
    unfold Heap.next
    rw [Mem.read_write_of_disjoint (by omega), Mem.read_write_of_disjoint (by omega),
      Mem.read_write_of_disjoint (by omega), Mem.read_write_of_disjoint (by omega)]
  · exact Avoids.put_bind (hclear.nextLink hb) (avoids_put (hclear.sizeField hb hu))

/-- `coalesce_forward` of a free block. -/
theorem avoids_coalesceForward (h : Linked m p (b :: post) 0)
    (t : Tiles sizeofBlock lo (b :: post) hi) (hclear : Clear P (b :: post))
    (hu : b.used = false) : (coalesceForwardAccesses b.start).Avoids P m := by
  obtain ⟨hhead, hpost⟩ := h
  have hb : b ∈ b :: post := List.mem_cons_self
  have hnext : m.read (b.start + 16) 8 = headAddr 0 post := hhead.next
  unfold coalesceForwardAccesses
  refine Avoids.word_bind (hclear.nextLink hb) ?_
  refine Avoids.ite (fun hne => ?_) fun _ => avoids_pure _
  rw [hnext] at hne ⊢
  cases post with
  | nil => exact absurd rfl hne
  | cons n r =>
    have hn : n ∈ b :: n :: r := by simp
    obtain ⟨hnhead, -⟩ := hpost
    have hstart : n.start = b.start + sizeofBlock + b.size := by
      rw [t.1]
      exact t.2.1
    rw [headAddr_cons]
    refine Avoids.word_bind (hclear.flag hn) ?_
    refine Avoids.ite (fun hflag => ?_) fun _ => avoids_pure _
    have hfree : n.used = false := hnhead.free_ne_zero.mp hflag
    unfold absorbAccesses
    refine Avoids.word_bind (hclear.sizeField hb hu) ?_
    refine Avoids.word_bind (hclear.sizeField hn hfree) ?_
    refine Avoids.put_bind (hclear.sizeField hb hu) ?_
    refine Avoids.word_bind (hclear.nextLink hn) ?_
    refine Avoids.put_bind (hclear.nextLink hb) ?_
    refine avoids_relink r (hclear.nextLink hn) ?_ (hclear.sub fun c hc => by simp [hc])
    refine Eq.trans ?_ hnhead.next
    unfold sizeofBlock at hstart
    unfold Heap.next
    rw [Mem.read_write_of_disjoint (by omega), Mem.read_write_of_disjoint (by omega)]

/-- `coalesce_forward(b->prev)`, if that is a free block. -/
theorem avoids_coalesceBackward {f : Seg} {r : List Seg} (h : Linked m 0 (pre ++ f :: r) 0)
    (t : Tiles sizeofBlock lo (pre ++ f :: r) hi) (hclear : Clear P (pre ++ f :: r)) :
    (coalesceBackwardAccesses f.start).Avoids P m := by
  have hf : f ∈ pre ++ f :: r := by simp
  have hprev : m.read (f.start + 24) 8 = lastAddr 0 pre := (linked_mid.mp h).2.1.prev
  unfold coalesceBackwardAccesses
  refine Avoids.word_bind (hclear.prevLink hf) ?_
  refine Avoids.ite (fun hne => ?_) fun _ => avoids_pure _
  rw [hprev] at hne ⊢
  rcases List.eq_nil_or_concat pre with rfl | ⟨pre', q, rfl⟩
  · exact absurd rfl hne
  · have hassoc : pre'.concat q ++ f :: r = pre' ++ q :: (f :: r) := by simp
    rw [hassoc] at h t hclear
    obtain ⟨-, hqhead, hqpost⟩ := linked_mid.mp h
    obtain ⟨mid, -, tq⟩ := tiles_append.mp t
    have hq : q ∈ pre' ++ q :: (f :: r) := by simp
    rw [List.concat_eq_append, lastAddr_concat]
    refine Avoids.word_bind (hclear.flag hq) ?_
    refine Avoids.ite (fun hflag => ?_) fun _ => avoids_pure _
    refine Avoids.word_bind (hclear.prevLink (by simp)) ?_
    rw [hprev, List.concat_eq_append, lastAddr_concat]
    exact avoids_coalesceForward ⟨hqhead, hqpost⟩ tq
      (hclear.sub fun c hc => List.mem_append_right _ hc)
      (hqhead.free_ne_zero.mp hflag)

/-- `kfree` joins a free block with what follows it, then with what precedes it. -/
theorem avoids_coalesce (h : Linked m 0 (pre ++ b :: post) 0)
    (t : Tiles sizeofBlock lo (pre ++ b :: post) hi) (hr : Roomy (pre ++ b :: post))
    (hclear : Clear P (pre ++ b :: post)) (hu : b.used = false) (hco : Coalesced post)
    (hlo : 0 < lo) (hhi : hi < 2 ^ 64) :
    (do
      coalesceForwardAccesses b.start
      coalesceBackwardAccesses b.start).Avoids P m := by
  obtain ⟨mid, tpre, tb⟩ := tiles_append.mp t
  obtain ⟨-, hbhead, hbpost⟩ := linked_mid.mp h
  have hforward := avoids_coalesceForward ⟨hbhead, hbpost⟩ tb
    (hclear.sub fun c hc => List.mem_append_right _ hc) hu
  refine Avoids.bind hforward ?_
  obtain ⟨f, r, hf, hfstart, -, -, -⟩ := coalesced_joinForward hco hu
  have hjoin := h.coalesceForward t hr hu hlo hhi
  have htJoin := tiles_append.mpr ⟨mid, tpre, tiles_joinForward tb⟩
  have hclearJoin := hclear.joinForward tb hu
  rw [hf] at hjoin htJoin hclearJoin
  have hbackward := avoids_coalesceBackward hjoin htJoin hclearJoin
  rw [hfstart] at hbackward
  rw [run_coalesceForwardAccesses]
  dsimp only
  exact hbackward

end Accesses

/-! ## The calls -/

section Calls

variable {A : Arena} {s : HeapState} {l pre post : List Seg} {b : Seg}

/-- **`kmalloc`** meets nothing of what used blocks keep. -/
theorem Represents.kmalloc_avoids (R : Represents A s l) (n : Nat) :
    (kmallocAccesses s.heapList n).Avoids (Owned l) s.mem := by
  have hclear := clear_owned R.tiles
  have hpos : ∀ c ∈ l, c.start ≠ 0 := fun c hc => Nat.ne_of_gt (R.bounds hc).1
  have hfind := R.findFreeBlock_eq (totalNeeded n)
  have htotal : add64 (align16 n) sizeofMagic = totalNeeded n := add64_of_lt (totalNeeded_lt n)
  unfold kmallocAccesses
  dsimp only
  rw [htotal]
  generalize loopFuel = fuel at hfind ⊢
  refine Avoids.bind ?_ ?_
  · rw [R.heapList_eq]
    exact avoids_findFreeBlock R.linked hclear hpos
  · rw [run_findFreeBlockAccesses, hfind]
    cases hf : l.find? (fits (totalNeeded n)) with
    | none => exact avoids_pure _
    | some b =>
      obtain ⟨hfit, pre, post, rfl, -⟩ := List.find?_eq_some_iff_append.mp hf
      obtain ⟨hu, hle⟩ : b.used = false ∧ totalNeeded n ≤ b.size := by
        simpa [fits] using hfit
      have hb : b ∈ pre ++ b :: post := by simp
      obtain ⟨-, htop, hrange⟩ := R.bounds hb
      have hroom : sizeofMagic ≤ b.size := R.roomy b hb
      have hheader := (linked_mid.mp R.linked).2.1
      simp only [Option.map_some, Option.getD_some]
      refine Avoids.ite (fun _ => avoids_pure _) fun _ => ?_
      refine Avoids.bind
        (avoids_splitBlock hheader (hclear.sub fun c hc => List.mem_append_right _ hc) hu hle
          (by omega)) ?_
      refine Avoids.put_bind (hclear.flag hb) ?_
      refine Avoids.put_bind ((hclear.free b hb hu).sub ?_ ?_) (avoids_pure _)
      · omega
      · unfold sizeofMagic at hroom
        unfold sizeofBlock
        omega

/-- **`kfree`** of a used block meets nothing of what the other used blocks keep. -/
theorem Represents.kfree_avoids (R : Represents A s (pre ++ b :: post)) (hu : b.used = true) :
    (kfreeAccesses (b.start + sizeofBlock + sizeofMagic)).Avoids
      (Owned (pre ++ { b with used := false } :: post)) s.mem := by
  obtain ⟨hpos, htop, hrange⟩ := R.bounds (b := b) (by simp)
  have hroom : sizeofMagic ≤ b.size := R.roomy b (by simp)
  have hmagic : s.mem.read (b.start + 32) 4 = blockMagic :=
    (linked_mid.mp R.linked).2.1.magic hu
  have hslot : sub64 (b.start + sizeofBlock + sizeofMagic) sizeofMagic = b.start + 32 := by
    rw [sub64_of_le (by omega) (by omega), Nat.add_sub_cancel]
    rfl
  have hblock : sub64 (b.start + 32) sizeofBlock = b.start := by
    unfold sizeofBlock at *
    rw [sub64_of_le (by omega) (by omega), Nat.add_sub_cancel]
  have htMark := tiles_mark R.tiles false
  have hrMark := roomy_mark R.roomy false
  have hmark := R.linked.mark_mid R.tiles R.roomy false
  have hclear := clear_owned htMark
  have hb : { b with used := false } ∈ pre ++ { b with used := false } :: post := by simp
  have hin : ∀ {a n : Nat}, b.start ≤ a → a + n ≤ b.start + (sizeofBlock + b.size) →
      Misses _ a n :=
    fun hlo hhi => (hclear.free _ hb rfl).sub hlo hhi
  unfold kfreeAccesses
  dsimp only
  rw [hslot, hblock]
  refine Avoids.word_bind (hin ?_ ?_) ?_
  · omega
  · unfold sizeofMagic at hroom
    unfold sizeofBlock
    omega
  rw [if_neg (not_not_intro hmagic)]
  refine Avoids.put_bind (hin ?_ ?_) ?_
  · omega
  · unfold sizeofBlock
    omega
  refine Avoids.put_bind (hin ?_ ?_) ?_
  · omega
  · unfold sizeofMagic at hroom
    unfold sizeofBlock
    omega
  -- the block is marked free; what follows it is joined, then what precedes it
  change Avoids _ _ (mark s.mem b.start false)
  have hcoalesce := avoids_coalesce hmark htMark hrMark hclear rfl R.coalesced.append.2.of_cons
    A.base_pos A.in_range
  rw [← bind_assoc]
  exact Avoids.bind hcoalesce (avoids_pure _)

end Calls

end NekaKernel.Heap
