/-
  Heap/DoubleFree.lean --- a pointer that was freed is not freed again.

  Source: `kfree` and `coalesce_forward` in `heap.c`.

  `kfree` clears the magic word in front of the payload.  From then on the word lies
  inside a free block, behind its header; the block may grow when its neighbours are
  freed, but the headers that the merges store to are those of blocks, and the owners
  store to payloads of used blocks only.  Nothing puts the magic back before the next
  `kmalloc`.
-/
import NekaKernel.Heap.World

set_option autoImplicit false

namespace NekaKernel.Heap

open NekaKernel.Foundation NekaKernel.Kernel

/-! ## What a free stores to -/

/-- `[x, y)` meets no header of the list. -/
def OffHeaders (l : List Seg) (x y : Nat) : Prop :=
  ∀ c ∈ l, y ≤ c.start ∨ c.start + sizeofBlock ≤ x

section Stores

variable {A : Arena} {s : HeapState} {m : Mem} {lo hi p x y : Nat}
    {pre post l : List Seg} {b : Seg}

/-- The payload of a block meets no header. -/
theorem offHeaders_payload (t : Tiles sizeofBlock lo l hi) (hb : b ∈ l)
    (hx : b.start + sizeofBlock ≤ x) (hy : y ≤ b.start + sizeofBlock + b.size) :
    OffHeaders l x y := by
  intro c hc
  by_cases hbc : b = c
  · exact Or.inr (hbc ▸ hx)
  · rcases t.apart_of_ne hb hc hbc with hapart | hapart
    · exact Or.inl (by omega)
    · exact Or.inr (by omega)

/-- A merge makes no new header. -/
theorem OffHeaders.joinForward (h : OffHeaders (pre ++ b :: post) x y) :
    OffHeaders (pre ++ joinForward b post) x y := by
  intro c hc
  rcases List.mem_append.mp hc with hpre | hjoin
  · exact h c (List.mem_append_left _ hpre)
  · cases post with
    | nil => exact h c (List.mem_append_right _ hjoin)
    | cons n r =>
      rw [Heap.joinForward] at hjoin
      split at hjoin
      · exact h c (List.mem_append_right _ hjoin)
      · rcases List.mem_cons.mp hjoin with rfl | hr
        · exact h b (by simp)
        · exact h c (by simp [hr])

/-- `coalesce_forward` stores to headers. -/
theorem Linked.agree_coalesceForward (h : Linked m p (pre ++ b :: post) 0)
    (t : Tiles sizeofBlock lo (pre ++ b :: post) hi)
    (hoff : OffHeaders (pre ++ b :: post) x y) :
    Mem.Agree m (Heap.coalesceForward m b.start) x y := by
  obtain ⟨-, hhead, hpost⟩ := linked_mid.mp h
  obtain ⟨tpre, tpost⟩ := tiles_mid t
  have hb : y ≤ b.start ∨ b.start + 32 ≤ x := hoff b (by simp)
  cases post with
  | nil =>
    rw [coalesceForward_skip (by simp [hhead.next])]
    exact Mem.Agree.refl m x y
  | cons c r =>
    obtain ⟨hc, -⟩ := hpost
    have hcstart : c.start = b.start + 32 + b.size := tpost.1
    have hle := tpre.le
    cases hcu : c.used with
    | true =>
      rw [coalesceForward_skip (by simp [hhead.next, hc.free, hcu])]
      exact Mem.Agree.refl m x y
    | false =>
      have hjoint : ∀ z k, Mem.Agree m (setNext (setSize m b.start z) b.start k) x y :=
        fun z k =>
        (Mem.agree_write (by omega)).trans (Mem.agree_write (by omega))
      rw [headAddr_cons] at hhead
      rw [coalesceForward_join hhead.next (by omega) (hc.free_ne_zero.mpr hcu) (by omega)
        hc.next rfl]
      cases r with
      | nil =>
        rw [headAddr_nil, if_neg (by simp)]
        exact hjoint _ _
      | cons d r =>
        have hd : y ≤ d.start ∨ d.start + 32 ≤ x := hoff d (by simp)
        split
        · exact (hjoint _ _).trans (Mem.agree_write (by rw [headAddr_cons]; omega))
        · exact hjoint _ _

theorem Linked.agree_coalesceBackward {f : Seg} {r : List Seg}
    (h : Linked m 0 (pre ++ f :: r) 0) (t : Tiles sizeofBlock lo (pre ++ f :: r) hi)
    (hoff : OffHeaders (pre ++ f :: r) x y) :
    Mem.Agree m (Heap.coalesceBackward m f.start) x y := by
  have hprev := (linked_mid.mp h).2.1.prev
  unfold Heap.coalesceBackward
  rw [hprev]
  split
  · rcases List.eq_nil_or_concat pre with rfl | ⟨pre, q, rfl⟩
    · rename_i hcond
      exact absurd rfl hcond.1
    · rw [List.concat_eq_append, List.append_assoc, List.singleton_append] at h t hoff
      rw [List.concat_eq_append, lastAddr_concat]
      exact h.agree_coalesceForward t hoff
  · exact Mem.Agree.refl m x y

/-- Behind the two stores that mark the block free, `kfree` stores to headers. -/
theorem Represents.kfree_agree (R : Represents A s (pre ++ b :: post)) (hu : b.used = true)
    (hoff : OffHeaders (pre ++ b :: post) x y) {s' : HeapState}
    (h : Heap.kfree s (payload b) = (.ret (), s')) :
    Mem.Agree (mark s.mem b.start false) s'.mem x y := by
  obtain ⟨hpos, htop, hrange⟩ := R.bounds (b := b) (by simp)
  have hroomb : sizeofMagic ≤ b.size := R.roomy b (by simp)
  have heq := kfree_eq (s := s) (Nat.ne_of_gt hpos) (by omega)
    ((linked_mid.mp R.linked).2.1.magic hu)
  obtain ⟨-, rfl⟩ := Prod.mk.inj (heq.symm.trans h)
  have hmark := R.linked.mark_mid R.tiles R.roomy false
  have htMark := tiles_mark R.tiles false
  have hoffMark : OffHeaders (pre ++ { b with used := false } :: post) x y := by
    intro c hc
    simp only [List.mem_append, List.mem_cons] at hc
    rcases hc with hc | rfl | hc
    · exact hoff c (by simp [hc])
    · exact hoff b (by simp)
    · exact hoff c (by simp [hc])
  have hjoin := hmark.coalesceForward htMark (roomy_mark R.roomy false)
    rfl A.base_pos A.in_range
  obtain ⟨mid, tpre, tb⟩ := tiles_append.mp htMark
  have htJoin := tiles_append.mpr ⟨mid, tpre, tiles_joinForward tb⟩
  have hoffJoin := hoffMark.joinForward
  obtain ⟨f, r, hf, hfstart, -, -, -⟩ :=
    coalesced_joinForward (b := { b with used := false }) R.coalesced.append.2.of_cons rfl
  have hfstart : f.start = b.start := hfstart
  rw [hf] at hjoin htJoin hoffJoin
  have hforward := hmark.agree_coalesceForward htMark hoffMark
  have hbackward := hjoin.agree_coalesceBackward htJoin hoffJoin
  rw [hfstart] at hbackward
  dsimp only at hforward hbackward ⊢
  exact hforward.trans hbackward

end Stores

/-! ## Words in free blocks -/

/-- The word at `a` lies behind the header of a free block. -/
def FreeWord (l : List Seg) (a : Nat) : Prop :=
  ∃ c ∈ l, c.used = false ∧ c.start + sizeofBlock ≤ a ∧
    a + sizeofMagic ≤ c.start + sizeofBlock + c.size

section Words

variable {lo hi a : Nat} {pre post l : List Seg} {b : Seg}

theorem freeWord_append {l₁ l₂ : List Seg} :
    FreeWord (l₁ ++ l₂) a ↔ FreeWord l₁ a ∨ FreeWord l₂ a := by
  simp [FreeWord, or_and_right, exists_or]

/-- Two free blocks that are joined keep their words. -/
theorem FreeWord.joinForward (t : Tiles sizeofBlock lo (b :: post) hi) (hb : b.used = false)
    (h : FreeWord (b :: post) a) : FreeWord (joinForward b post) a := by
  cases post with
  | nil => exact h
  | cons n r =>
    rw [Heap.joinForward]
    split
    · exact h
    · have hstart : b.start = lo := t.1
      have hnext : n.start = lo + sizeofBlock + b.size := t.2.1
      obtain ⟨c, hc, hfree, hlo, hhi⟩ := h
      rcases List.mem_cons.mp hc with rfl | hc
      · exact ⟨_, List.mem_cons_self, hb, hlo, by dsimp only; omega⟩
      · rcases List.mem_cons.mp hc with rfl | hc
        · exact ⟨_, List.mem_cons_self, hb, by dsimp only; omega, by dsimp only; omega⟩
        · exact ⟨c, List.mem_cons_of_mem _ hc, hfree, hlo, hhi⟩

theorem FreeWord.joinBackward {rest : List Seg} (t : Tiles sizeofBlock lo (pre ++ rest) hi)
    (h : FreeWord (pre ++ rest) a) : FreeWord (joinBackward pre rest) a := by
  rcases joinBackward_cases pre rest with ⟨_, hsame⟩ | ⟨pre', q, rfl, hqu, hjoin⟩
  · rw [hsame]
    exact h
  · rw [List.append_assoc, List.singleton_append] at h t
    obtain ⟨mid, -, trest⟩ := tiles_append.mp t
    rw [hjoin, freeWord_append]
    exact (freeWord_append.mp h).imp_right (FreeWord.joinForward trest hqu)

/-- A free keeps the words of the blocks that were free, and adds those of the block. -/
theorem FreeWord.release (t : Tiles sizeofBlock lo (pre ++ b :: post) hi)
    (h : FreeWord (pre ++ { b with used := false } :: post) a) :
    FreeWord (release pre b post) a := by
  obtain ⟨mid, tpre, tb⟩ := tiles_append.mp (tiles_mark t false)
  refine FreeWord.joinBackward (tiles_append.mpr ⟨mid, tpre, tiles_joinForward tb⟩) ?_
  rw [freeWord_append] at h ⊢
  exact h.imp_right (FreeWord.joinForward tb rfl)

theorem FreeWord.mark (hu : b.used = true) (h : FreeWord (pre ++ b :: post) a) :
    FreeWord (pre ++ { b with used := false } :: post) a := by
  obtain ⟨c, hc, hfree, hword⟩ := h
  have hne : c ≠ b := by
    rintro rfl
    rw [hfree] at hu
    cases hu
  refine ⟨c, ?_, hfree, hword⟩
  simp only [List.mem_append, List.mem_cons, hne, false_or] at hc ⊢
  tauto

/-- Such a word meets no header. -/
theorem FreeWord.offHeaders (t : Tiles sizeofBlock lo l hi) (h : FreeWord l a) :
    OffHeaders l a (a + sizeofMagic) := by
  obtain ⟨c, hc, -, hlo, hhi⟩ := h
  exact offHeaders_payload t hc hlo hhi

/-- Nor a used block. -/
theorem FreeWord.apart (t : Tiles sizeofBlock lo l hi) (h : FreeWord l a) (hb : b ∈ l)
    (hu : b.used = true) :
    a + sizeofMagic ≤ b.start ∨ b.start + sizeofBlock + b.size ≤ a := by
  obtain ⟨c, hc, hfree, hlo, hhi⟩ := h
  have hne : c ≠ b := by
    rintro rfl
    rw [hfree] at hu
    cases hu
  rcases t.apart_of_ne hc hb hne with hapart | hapart
  · exact Or.inl (by omega)
  · exact Or.inr (by omega)

end Words

/-! ## The cleared magic word -/

/-- The word at `a` is cleared and lies in a free block. -/
structure Cleared (w : World) (l : List Seg) (a : Nat) : Prop where
  word : FreeWord l a
  zero : w.heap.mem.read a sizeofMagic = 0

section Calls

variable {A : Arena} {w w' : World} {l : List Seg}

/-- A free clears the magic word of the block and leaves every other word as it is. -/
theorem WorldInv.cleared_kfree {q : Nat} (I : WorldInv A w l)
    (h : w.step (.kfree q) = some w') :
    ∃ l', WorldInv A w' l' ∧ (∀ a, Cleared w l a → Cleared w' l' a) ∧
      Cleared w' l' (q - sizeofMagic) ∧
      sizeofMagic < q ∧ q < 2 ^ 64 := by
  simp only [World.step] at h
  split at h
  · rename_i hp
    obtain ⟨pre, b, post, rfl, hu, rfl⟩ := I.find_block hp
    obtain ⟨s', hok, R⟩ := kfree_spec I.rep hu
    have hmem : b ∈ pre ++ b :: post := by simp
    obtain ⟨hpos, htop, hrange⟩ := I.rep.bounds hmem
    have hroomb := I.rep.roomy b hmem
    have hslot : payload b - sizeofMagic = b.start + sizeofBlock := Nat.add_sub_cancel _ _
    have hagree : ∀ {x y}, OffHeaders (pre ++ b :: post) x y →
        Mem.Agree (mark w.heap.mem b.start false) s'.mem x y :=
      fun hoff => I.rep.kfree_agree hu hoff hok
    rw [show payload b = b.start + sizeofBlock + sizeofMagic from rfl, hok] at h
    simp only [Option.some.injEq] at h
    subst h
    refine ⟨_, I.kfree hu R, fun a hcleared =>
      ⟨(hcleared.word.mark hu).release I.rep.tiles, ?_⟩, ⟨?_, ?_⟩, ?_⟩
    · have hapart := hcleared.word.apart I.rep.tiles hmem hu
      refine (Mem.read_congr (hagree (hcleared.word.offHeaders I.rep.tiles))).trans ?_
      rw [← hcleared.zero]
      refine Mem.read_congr (agree_mark ?_)
      unfold sizeofMagic sizeofBlock at *
      omega
    · refine FreeWord.release I.rep.tiles ⟨{ b with used := false }, by simp, rfl, ?_, ?_⟩
      · exact Nat.le_of_eq hslot.symm
      · rw [hslot]
        exact Nat.add_le_add_left hroomb _
    · have hoff : OffHeaders (pre ++ b :: post) (b.start + sizeofBlock)
          (b.start + sizeofBlock + sizeofMagic) :=
        offHeaders_payload I.rep.tiles hmem (Nat.le_refl _) (Nat.add_le_add_left hroomb _)
      rw [hslot]
      refine (Mem.read_congr (hagree hoff)).trans ?_
      exact Mem.read_write_of_lt (by decide)
    · unfold payload sizeofMagic sizeofBlock at *
      exact ⟨by omega, by omega⟩
  · cases h

/-- No call but `kmalloc` writes to a cleared word. -/
theorem WorldInv.cleared_step {c : Call} (I : WorldInv A w l) (hc : ∀ n, c ≠ .kmalloc n)
    (h : w.step c = some w') : ∃ l', WorldInv A w' l' ∧ ∀ a, Cleared w l a →
      Cleared w' l' a := by
  cases c with
  | kmalloc n => exact absurd rfl (hc n)
  | kfree q =>
    obtain ⟨l', I', hkeep, -⟩ := I.cleared_kfree h
    exact ⟨l', I', hkeep⟩
  | store ptr addr byte =>
    simp only [World.step] at h
    split at h
    · rename_i hp
      obtain ⟨hp, hlo, hhi⟩ := hp
      obtain ⟨pre, b, post, rfl, hu, rfl⟩ := I.find_block hp
      rw [(linked_mid.mp I.rep.linked).2.1.blockSizeOf_eq] at hhi
      have hinside : addr < b.start + sizeofBlock + b.size := by
        simp only [payload] at hlo hhi
        omega
      simp only [Option.some.injEq] at h
      subst h
      refine ⟨_, ⟨I.rep.store hlo hinside, I.live, I.nodup, I.asked⟩,
        fun a hcleared => ⟨hcleared.word, ?_⟩⟩
      have hapart := hcleared.word.apart I.rep.tiles (b := b) (by simp) hu
      rw [← hcleared.zero]
      refine Mem.read_write_of_disjoint ?_
      unfold payload at hlo
      omega
    · cases h

theorem WorldInv.cleared_exec :
    ∀ {calls : List Call} {w : World} {l : List Seg}, WorldInv A w l →
    (∀ n, .kmalloc n ∉ calls) → exec World.step w calls = some w' →
      ∃ l', WorldInv A w' l' ∧ ∀ a, Cleared w l a → Cleared w' l' a := by
  intro calls
  induction calls with
  | nil =>
    intro w l I _ h
    obtain rfl : w = w' := Option.some.inj h
    exact ⟨l, I, fun _ hcleared => hcleared⟩
  | cons c calls ih =>
    intro w l I hcalls h
    obtain ⟨w₁, hstep, hrest⟩ := Option.bind_eq_some_iff.mp h
    have hfirst : ∀ n, c ≠ .kmalloc n := by
      rintro n rfl
      exact hcalls n List.mem_cons_self
    obtain ⟨l₁, I₁, hkeep₁⟩ := I.cleared_step hfirst hstep
    obtain ⟨l', I', hkeep⟩ := ih I₁ (fun n hn => hcalls n (List.mem_cons_of_mem _ hn)) hrest
    exact ⟨l', I', fun a hcleared => hkeep a (hkeep₁ a hcleared)⟩

/-- In front of a cleared word, `kfree` panics. -/
theorem Cleared.kfree_panics {p : Nat} (h : Cleared w l (p - sizeofMagic))
    (hlo : sizeofMagic < p) (hhi : p < 2 ^ 64) :
    Heap.kfree w.heap p = (.panic .HEAP panicHeapCorrupt, w.heap) := by
  have hslot : sub64 p sizeofMagic = p - sizeofMagic := sub64_of_le (Nat.le_of_lt hlo) hhi
  have hzero : w.heap.mem.read (p - sizeofMagic) 4 = 0 := h.zero
  unfold Heap.kfree
  dsimp only
  rw [if_neg (by omega), hslot, hzero, if_pos (by decide)]

end Calls

/-- **A double free is caught.**  After `kfree` of a live pointer and any further calls
but `kmalloc`, a second `kfree` of it panics and leaves the heap as it is. -/
theorem double_free_caught {A : Arena} {w w₁ w₂ : World} {p : Nat} {calls : List Call}
    (h : World.Reachable A w) (hfree : w.step (.kfree p) = some w₁)
    (hcalls : ∀ n, .kmalloc n ∉ calls) (hrun : exec World.step w₁ calls = some w₂) :
    kfree w₂.heap p = (.panic .HEAP panicHeapCorrupt, w₂.heap) := by
  obtain ⟨l, I⟩ := worldInv_of_reach h
  obtain ⟨l₁, I₁, -, hcleared, hlo, hhi⟩ := I.cleared_kfree hfree
  obtain ⟨l₂, -, hkeep⟩ := I₁.cleared_exec hcalls hrun
  exact (hkeep _ hcleared).kfree_panics hlo hhi

/-- The second of three blocks is freed, the owner of the first stores a byte, the third
is freed and joined with the second, and the second is freed again. -/
theorem double_free_caught_joined :
    ∃ w w₁ w₂ : World, w.live = [(0x2001AC, 50), (0x2000B8, 200), (0x200024, 100)] ∧
      w.step (.kfree 0x2000B8) = some w₁ ∧
      exec World.step w₁ [.store 0x200024 0x200030 7, .kfree 0x2001AC] = some w₂ ∧
      kfree w₂.heap 0x2000B8 = (.panic .HEAP panicHeapCorrupt, w₂.heap) := by
  have hrun :
    (exec World.step zeroWorld [.kmalloc 100, .kmalloc 200, .kmalloc 50]).map (fun w =>
      (w.live, ((w.step (.kfree 0x2000B8)).bind fun w₁ =>
        exec World.step w₁ [.store 0x200024 0x200030 7, .kfree 0x2001AC]).isSome)) =
      some ([(0x2001AC, 50), (0x2000B8, 200), (0x200024, 100)], true) := by decide +kernel
  obtain ⟨w, hw, hfacts⟩ := Option.map_eq_some_iff.mp hrun
  obtain ⟨hlive, hsome⟩ := Prod.mk.inj hfacts
  obtain ⟨w₂, hw₂⟩ := Option.isSome_iff_exists.mp hsome
  obtain ⟨w₁, hfree, hrest⟩ := Option.bind_eq_some_iff.mp hw₂
  have hnone : ∀ n, Call.kmalloc n ∉ [Call.store 0x200024 0x200030 7, .kfree 0x2001AC] := by
    simp
  exact ⟨w, w₁, w₂, hlive, hfree, hrest,
    double_free_caught (reachable_of_exec hw) hfree hnone hrest⟩

end NekaKernel.Heap
