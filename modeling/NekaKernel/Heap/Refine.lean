/-
  Heap/Refine.lean --- `kmalloc` and `kfree` on block lists.

  Each statement of the allocator that rewrites headers is shown to take a
  linked list in memory to another one: `split_block` cuts a segment in two,
  `b->free = 0` with the magic word marks it used, `coalesce_forward` joins it
  with its right neighbour.  `kmalloc_spec` and `kfree_spec` put them together
  into what a whole call does to the list; nothing after this file unfolds the
  allocator.
-/
import NekaKernel.Heap.Represents

set_option autoImplicit false

namespace NekaKernel.Heap

open NekaKernel.Foundation NekaKernel.Kernel

/-! ## The operations on lists -/

/-- `split_block` on a segment: nothing when the rest is too small. -/
def cut (b : Seg) (wanted : Nat) : List Seg :=
  if b.size - wanted ≤ sizeofBlock + 16 then [b]
  else [⟨b.start, wanted, b.used⟩,
    ⟨b.start + sizeofBlock + wanted, b.size - wanted - sizeofBlock, false⟩]

/-- What `kmalloc` leaves where the free segment `b` was. -/
def carve (b : Seg) (wanted : Nat) : List Seg := cut { b with used := true } wanted

/-- `coalesce_forward` on a segment and what follows it. -/
def joinForward (b : Seg) : List Seg → List Seg
  | [] => [b]
  | n :: r =>
    if n.used then b :: n :: r else { b with size := b.size + sizeofBlock + n.size } :: r

/-- The backward half of the coalescing in `kfree`: a free last segment of
`pre` is joined with the segment that starts `rest`. -/
def joinBackward (pre rest : List Seg) : List Seg :=
  match pre.getLast? with
  | some q => if q.used then pre ++ rest else pre.dropLast ++ joinForward q rest
  | none => rest

/-- What `kfree` makes of the used segment `b` between `pre` and `post`. -/
def release (pre : List Seg) (b : Seg) (post : List Seg) : List Seg :=
  joinBackward pre (joinForward { b with used := false } post)

/-- The two outcomes of the backward join. -/
theorem joinBackward_cases (pre rest : List Seg) :
    ((∀ q ∈ pre.getLast?, q.used = true) ∧ joinBackward pre rest = pre ++ rest) ∨
    ∃ pre' q, pre = pre' ++ [q] ∧ q.used = false ∧
      joinBackward pre rest = pre' ++ joinForward q rest := by
  rcases List.eq_nil_or_concat pre with rfl | ⟨pre', q, rfl⟩
  · exact Or.inl ⟨by simp, rfl⟩
  · cases hq : q.used with
    | true => exact Or.inl ⟨by simp [hq], by simp [joinBackward, hq]⟩
    | false => exact Or.inr ⟨pre', q, by simp, hq, by simp [joinBackward, hq]⟩

/-! ## Header updates in memory -/

section Updates

variable {m m' : Mem} {lo hi p n : Nat} {pre post : List Seg} {b b' : Seg}

/-- Rewriting one segment in place. -/
theorem Linked.replace_mid (h : Linked m p (pre ++ b :: post) n)
    (ht : Tiles sizeofBlock lo (pre ++ b :: post) hi) (hroom : Roomy (pre ++ b :: post))
    (hstart : b'.start = b.start)
    (hbelow : Mem.Agree m m' lo b.start)
    (habove : Mem.Agree m m' (b.start + sizeofBlock + b.size) hi)
    (hb : HeaderOk m' b' (lastAddr p pre) (headAddr n post)) :
    Linked m' p (pre ++ b' :: post) n := by
  obtain ⟨hpre, _, hpost⟩ := linked_mid.mp h
  obtain ⟨tpre, tpost⟩ := tiles_mid ht
  obtain ⟨rpre, rpost⟩ := roomy_append.mp hroom
  rw [linked_mid, hstart]
  exact ⟨hpre.congr tpre rpre hbelow, hb,
    hpost.congr tpost (roomy_cons.mp rpost).2 habove⟩

/-- `if (n) n->prev = p'` on the head of a list. -/
theorem Linked.relink {p' : Nat} (h : Linked m p post 0) (ht : Tiles sizeofBlock lo post hi)
    (hroom : Roomy post) (hlo : 0 < lo) (hp : p' < 2 ^ 64) :
    Linked (if headAddr 0 post ≠ 0 then setPrev m (headAddr 0 post) p' else m) p' post 0 := by
  cases post with
  | nil => trivial
  | cons c r =>
    have hc : c.start ≠ 0 := by
      rw [ht.1]
      omega
    rw [headAddr_cons, if_pos hc]
    exact h.setPrev_head ht hroom hp

/-- The relinking touches only the list it relinks. -/
theorem agree_relink {p' x y : Nat} (ht : Tiles sizeofBlock lo post hi) (hroom : Roomy post)
    (hxy : y ≤ lo ∨ hi ≤ x) :
    Mem.Agree m (if headAddr 0 post ≠ 0 then setPrev m (headAddr 0 post) p' else m) x y := by
  cases post with
  | nil =>
    rw [headAddr_nil, if_neg (by simp)]
    exact Mem.Agree.refl m x y
  | cons c r =>
    have hle := ht.2.le
    have hstart := ht.1
    have hc := (roomy_cons.mp hroom).1
    simp only [sizeofBlock, sizeofMagic] at hle hc
    split
    · refine Mem.agree_write ?_
      rw [headAddr_cons]
      omega
    · exact Mem.Agree.refl m x y

end Updates

/-! ## The statements -/

/-- The words `kmalloc` and `kfree` store to mark a block used or free. -/
def mark (m : Mem) (b : Nat) (used : Bool) : Mem :=
  setMagicSlot (setFree m b (if used then 0 else 1)) b (if used then blockMagic else 0)

section Statements

variable {m : Mem} {lo hi p n : Nat} {pre post : List Seg} {b : Seg}

theorem agree_mark {used : Bool} {x y a : Nat} (h : y ≤ a ∨ a + 36 ≤ x) :
    Mem.Agree m (mark m a used) x y :=
  (Mem.agree_write (by omega)).trans (Mem.agree_write (by omega))

theorem HeaderOk.mark (h : HeaderOk m b p n) (used : Bool) :
    HeaderOk (Heap.mark m b.start used) { b with used := used } p n := by
  have hsize : Heap.size (Heap.mark m b.start used) b.start = b.size := by
    rw [← h.size]
    exact (Mem.read_write_of_disjoint (by omega)).trans (Mem.read_write_of_disjoint (by omega))
  have hfree : Heap.free (Heap.mark m b.start used) b.start = if used then 0 else 1 :=
    (Mem.read_write_of_disjoint (by omega)).trans
      (Mem.read_write_of_lt (by cases used <;> decide))
  have hnext : Heap.next (Heap.mark m b.start used) b.start = n := by
    rw [← h.next]
    exact (Mem.read_write_of_disjoint (by omega)).trans (Mem.read_write_of_disjoint (by omega))
  have hprev : Heap.prev (Heap.mark m b.start used) b.start = p := by
    rw [← h.prev]
    exact (Mem.read_write_of_disjoint (by omega)).trans (Mem.read_write_of_disjoint (by omega))
  refine ⟨hsize, hfree, hnext, hprev, ?_⟩
  intro hu
  have hu : used = true := hu
  subst hu
  exact Mem.read_write_of_lt (by decide)

/-- Marking one block of a list. -/
theorem Linked.mark_mid (h : Linked m p (pre ++ b :: post) 0)
    (ht : Tiles sizeofBlock lo (pre ++ b :: post) hi) (hroom : Roomy (pre ++ b :: post))
    (used : Bool) :
    Linked (mark m b.start used) p (pre ++ { b with used := used } :: post) 0 := by
  have hb := (roomy_cons.mp (roomy_append.mp hroom).2).1
  simp only [sizeofMagic] at hb
  refine h.replace_mid ht hroom rfl ?_ ?_ ((linked_mid.mp h).2.1.mark used)
  · exact agree_mark (by omega)
  · refine agree_mark ?_
    simp only [sizeofBlock]
    omega

/-- `coalesce_forward` does nothing before the end of the list or a used block. -/
theorem coalesceForward_skip {a : Nat}
    (h : ¬ (next m a ≠ 0 ∧ Heap.free m (next m a) ≠ 0)) : coalesceForward m a = m := by
  unfold coalesceForward
  exact if_neg h

/-- Before a free block `c`, it stores the joint size and the far link, then
relinks the block after `c`. -/
theorem coalesceForward_join {a c k z : Nat} (hnext : next m a = c) (hc : c ≠ 0)
    (hfree : Heap.free m c ≠ 0) (hapart : a + 32 ≤ c) (hk : next m c = k)
    (hsize : add64 (Heap.size m a) (add64 sizeofBlock (Heap.size m c)) = z) :
    coalesceForward m a =
      if k ≠ 0 then setPrev (setNext (setSize m a z) a k) k a
      else setNext (setSize m a z) a k := by
  have hk₁ : next (setSize m a z) c = k := by
    rw [← hk]
    exact Mem.read_write_of_disjoint (by omega)
  have hk₂ : next (setNext (setSize m a z) a k) c = k := by
    rw [← hk₁]
    exact Mem.read_write_of_disjoint (by omega)
  unfold coalesceForward
  dsimp only
  rw [hnext, if_pos ⟨hc, hfree⟩, hsize, hk₁, hk₂]

/-- `coalesce_forward` joins a block with a free right neighbour and is the
identity otherwise. -/
theorem Linked.coalesceForward (h : Linked m p (pre ++ b :: post) 0)
    (ht : Tiles sizeofBlock lo (pre ++ b :: post) hi) (hroom : Roomy (pre ++ b :: post))
    (hu : b.used = false) (hlo : 0 < lo) (hhi : hi < 2 ^ 64) :
    Linked (Heap.coalesceForward m b.start) p (pre ++ joinForward b post) 0 := by
  obtain ⟨hpre, hhead, hpost⟩ := linked_mid.mp h
  obtain ⟨tpre, tpost⟩ := tiles_mid ht
  obtain ⟨rpre, rb⟩ := roomy_append.mp hroom
  obtain ⟨hbroom, rpost⟩ := roomy_cons.mp rb
  have hlob := tpre.le
  cases post with
  | nil =>
    rw [coalesceForward_skip (by simp [hhead.next])]
    exact h
  | cons c r =>
    obtain ⟨hc, hr⟩ := hpost
    obtain ⟨hcstart, tr⟩ := tpost
    obtain ⟨hcroom, rr⟩ := roomy_cons.mp rpost
    have hle := tr.le
    simp only [sizeofBlock, sizeofMagic] at hcstart hle hbroom hcroom tr
    cases hcu : c.used with
    | true =>
      rw [coalesceForward_skip (by simp [hhead.next, hc.free, hcu])]
      simpa [joinForward, hcu] using h
    | false =>
      -- the two stores to `b`, before the block after `c` is relinked
      let m₁ := setNext (setSize m b.start (b.size + 32 + c.size)) b.start (headAddr 0 r)
      have hdef : Heap.coalesceForward m b.start =
          if headAddr 0 r ≠ 0 then setPrev m₁ (headAddr 0 r) b.start else m₁ := by
        refine coalesceForward_join hhead.next ?_ (hc.free_ne_zero.mpr hcu) ?_ hc.next ?_
        · rw [headAddr_cons]
          omega
        · rw [headAddr_cons]
          omega
        · rw [headAddr_cons, hhead.size, hc.size, sizeofBlock, add64_of_lt (a := 32) (by omega),
            add64_of_lt (by omega), Nat.add_assoc]
      have hm₁ : ∀ x y, y ≤ b.start ∨ b.start + 32 ≤ x → Mem.Agree m m₁ x y := fun x y hxy =>
        (Mem.agree_write (by omega)).trans (Mem.agree_write (by omega))
      have hrel : ∀ x y, y ≤ b.start + 32 + b.size + 32 + c.size ∨ hi ≤ x →
          Mem.Agree m₁ (Heap.coalesceForward m b.start) x y := by
        intro x y hxy
        rw [hdef]
        exact agree_relink tr rr hxy
      have hhead₁ : HeaderOk m₁ { b with size := b.size + 32 + c.size } (lastAddr p pre)
          (headAddr 0 r) := by
        refine ⟨?_, ?_, ?_, ?_, ?_⟩
        · exact (Mem.read_write_of_disjoint (by dsimp only; omega)).trans
            (Mem.read_write_of_lt (by omega))
        · refine Eq.trans ?_ hhead.free
          exact (Mem.read_write_of_disjoint (by dsimp only; omega)).trans
            (Mem.read_write_of_disjoint (by dsimp only; omega))
        · refine Mem.read_write_of_lt ?_
          rw [← hc.next]
          exact Mem.read_lt _ _ _
        · refine Eq.trans ?_ hhead.prev
          exact (Mem.read_write_of_disjoint (by dsimp only; omega)).trans
            (Mem.read_write_of_disjoint (by dsimp only; omega))
        · intro hused
          simp [hu] at hused
      have hr₁ : Linked m₁ c.start r 0 := hr.congr tr rr (hm₁ _ _ (by omega))
      rw [joinForward, hcu, if_neg (by simp), linked_mid]
      refine ⟨?_, ?_, ?_⟩
      · exact hpre.congr tpre rpre ((hm₁ _ _ (by omega)).trans (hrel _ _ (by omega)))
      · exact hhead₁.congr (hrel _ _ (by dsimp only; omega))
      · rw [hdef]
        exact hr₁.relink tr rr (by omega) (by omega)

/-- `if (b->prev && b->prev->free) coalesce_forward(b->prev)`. -/
def coalesceBackward (m : Mem) (b : Nat) : Mem :=
  if prev m b ≠ 0 ∧ free m (prev m b) ≠ 0 then coalesceForward m (prev m b) else m

/-- The backward half of `kfree`'s coalescing, on a list. -/
theorem Linked.coalesceBackward {f : Seg} {r : List Seg} (h : Linked m 0 (pre ++ f :: r) 0)
    (ht : Tiles sizeofBlock lo (pre ++ f :: r) hi) (hroom : Roomy (pre ++ f :: r))
    (hlo : 0 < lo) (hhi : hi < 2 ^ 64) :
    Linked (Heap.coalesceBackward m f.start) 0 (joinBackward pre (f :: r)) 0 := by
  have hprev := (linked_mid.mp h).2.1.prev
  unfold Heap.coalesceBackward
  rw [hprev]
  rcases List.eq_nil_or_concat pre with rfl | ⟨pre', q, rfl⟩
  · rw [if_neg (by simp)]
    exact h
  · rw [List.concat_eq_append] at *
    rw [lastAddr_concat]
    have h' : Linked m 0 (pre' ++ q :: f :: r) 0 := by simpa using h
    have ht' : Tiles sizeofBlock lo (pre' ++ q :: f :: r) hi := by simpa using ht
    have hroom' : Roomy (pre' ++ q :: f :: r) := by simpa using hroom
    have hq := (linked_mid.mp h').2.1
    have hqlo := (tiles_mid ht').1.le
    cases hqu : q.used with
    | true =>
      rw [if_neg (by simp [hq.free, hqu])]
      simpa [joinBackward, hqu] using h
    | false =>
      rw [if_pos ⟨by omega, hq.free_ne_zero.mpr hqu⟩]
      simpa [joinBackward, hqu] using h'.coalesceForward ht' hroom' hqu hlo hhi

/-- The four stores that make a free header. -/
def freeHeader (m : Mem) (a z k q : Nat) : Mem :=
  setPrev (setNext (setFree (setSize m a z) a 1) a k) a q

theorem agree_freeHeader {a z k q x y : Nat} (h : y ≤ a ∨ a + 32 ≤ x) :
    Mem.Agree m (freeHeader m a z k q) x y :=
  (((Mem.agree_write (by omega)).trans (Mem.agree_write (by omega))).trans
    (Mem.agree_write (by omega))).trans (Mem.agree_write (by omega))

theorem headerOk_freeHeader {a z k q : Nat} (hz : z < 2 ^ 64) (hk : k < 2 ^ 64)
    (hq : q < 2 ^ 64) : HeaderOk (freeHeader m a z k q) ⟨a, z, false⟩ q k := by
  have hsize : Heap.size (freeHeader m a z k q) a = z :=
    ((Mem.read_write_of_disjoint (by omega)).trans
      (Mem.read_write_of_disjoint (by omega))).trans
      ((Mem.read_write_of_disjoint (by omega)).trans (Mem.read_write_of_lt hz))
  have hfree : Heap.free (freeHeader m a z k q) a = 1 :=
    ((Mem.read_write_of_disjoint (by omega)).trans
      (Mem.read_write_of_disjoint (by omega))).trans
      (Mem.read_write_of_lt (by decide))
  have hnext : Heap.next (freeHeader m a z k q) a = k :=
    (Mem.read_write_of_disjoint (by omega)).trans (Mem.read_write_of_lt hk)
  have hprev : Heap.prev (freeHeader m a z k q) a = q := Mem.read_write_of_lt hq
  exact ⟨hsize, hfree, hnext, hprev, by simp⟩

/-- `split_block` leaves a block alone whose rest would be too small. -/
theorem splitBlock_skip {a wanted : Nat} (hle : wanted ≤ Heap.size m a)
    (hsmall : Heap.size m a - wanted ≤ sizeofBlock + 16) : splitBlock m a wanted = m := by
  have hlt : Heap.size m a < 2 ^ 64 := Mem.read_lt m a 8
  unfold splitBlock
  rw [sub64_of_le hle hlt]
  exact if_pos hsmall

/-- Otherwise it writes the header of the rest, relinks the block after it and
shortens the block. -/
theorem splitBlock_cut {a wanted z k : Nat} (hz : Heap.size m a = z) (hk : next m a = k)
    (hle : wanted ≤ z) (hbig : sizeofBlock + 16 < z - wanted) (hwanted : sizeofMagic ≤ wanted)
    (hend : a + sizeofBlock + z < 2 ^ 64) :
    splitBlock m a wanted =
      let nb := a + sizeofBlock + wanted
      let m₁ := freeHeader m nb (z - wanted - sizeofBlock) k a
      setSize (setNext (if k ≠ 0 then setPrev m₁ k nb else m₁) a nb) a wanted := by
  simp only [sizeofBlock, sizeofMagic] at hbig hwanted hend
  have hnb : add64 (add64 a sizeofBlock) wanted = a + sizeofBlock + wanted := by
    simp only [sizeofBlock]
    rw [add64_of_lt (a := a) (by omega), add64_of_lt (by omega)]
  -- none of the stores before the last two meets the `next` field of the block
  have hk₁ : next (setFree (setSize m (a + sizeofBlock + wanted) (z - wanted - sizeofBlock))
      (a + sizeofBlock + wanted) 1) a = k := by
    rw [← hk]
    simp only [sizeofBlock]
    exact (Mem.read_write_of_disjoint (by omega)).trans (Mem.read_write_of_disjoint (by omega))
  have hk₂ :
      next (freeHeader m (a + sizeofBlock + wanted) (z - wanted - sizeofBlock) k a) a = k := by
    rw [← hk]
    simp only [sizeofBlock]
    exact Mem.read_congr (agree_freeHeader (by omega))
  unfold splitBlock
  dsimp only
  rw [hz, sub64_of_le hle (by omega), if_neg (by simp only [sizeofBlock]; omega), hnb, hk₁]
  change setSize (setNext (if next (freeHeader m _ _ k a) a ≠ 0 then
    setPrev (freeHeader m _ _ k a) (next (freeHeader m _ _ k a) a) _ else _) a _) a wanted = _
  rw [hk₂]
  rfl

/-- `split_block` cuts a free segment in two. -/
theorem Linked.splitBlock {wanted : Nat} (h : Linked m p (pre ++ b :: post) 0)
    (ht : Tiles sizeofBlock lo (pre ++ b :: post) hi) (hroom : Roomy (pre ++ b :: post))
    (hu : b.used = false) (hle : wanted ≤ b.size) (hwanted : sizeofMagic ≤ wanted)
    (hlo : 0 < lo) (hhi : hi < 2 ^ 64) :
    Linked (Heap.splitBlock m b.start wanted) p (pre ++ (cut b wanted ++ post)) 0 := by
  obtain ⟨hpre, hhead, hpost⟩ := linked_mid.mp h
  obtain ⟨tpre, tpost⟩ := tiles_mid ht
  obtain ⟨rpre, rb⟩ := roomy_append.mp hroom
  obtain ⟨hbroom, rpost⟩ := roomy_cons.mp rb
  have hlob := tpre.le
  have hbhi := tpost.le
  by_cases hsmall : b.size - wanted ≤ sizeofBlock + 16
  · rw [splitBlock_skip (by rw [hhead.size]; exact hle) (by rw [hhead.size]; exact hsmall), cut,
      if_pos hsmall]
    exact h
  · rw [splitBlock_cut hhead.size hhead.next hle (by omega) hwanted (by omega), cut,
      if_neg hsmall]
    have hk : headAddr 0 post < 2 ^ 64 := by
      rw [← hhead.next]
      exact Mem.read_lt _ _ _
    simp only [sizeofBlock, sizeofMagic] at hsmall hbhi hbroom hwanted tpost ⊢
    -- `m₁`: the rest has its header; `m₂`: the block after it is relinked
    let nb := b.start + 32 + wanted
    let m₁ := freeHeader m nb (b.size - wanted - 32) (headAddr 0 post) b.start
    let m₂ := if headAddr 0 post ≠ 0 then setPrev m₁ (headAddr 0 post) nb else m₁
    have hm₁ : ∀ x y, y ≤ nb ∨ nb + 32 ≤ x → Mem.Agree m m₁ x y := fun x y hxy =>
      agree_freeHeader hxy
    have hm₂ : ∀ x y, y ≤ b.start + 32 + b.size ∨ hi ≤ x → Mem.Agree m₁ m₂ x y := fun x y hxy =>
      agree_relink tpost rpost hxy
    have hm₃ : ∀ x y, y ≤ b.start ∨ b.start + 32 ≤ x →
        Mem.Agree m₂ (setSize (setNext m₂ b.start nb) b.start wanted) x y := fun x y hxy =>
      (Mem.agree_write (by omega)).trans (Mem.agree_write (by omega))
    have hnbdef : nb = b.start + 32 + wanted := rfl
    have hpost₂ : Linked m₂ nb post 0 :=
      (hpost.congr tpost rpost (hm₁ _ _ (by omega))).relink tpost rpost (by omega) (by omega)
    have hrest : HeaderOk m₁ ⟨nb, b.size - wanted - 32, false⟩ b.start (headAddr 0 post) :=
      headerOk_freeHeader (by omega) hk (by omega)
    have hhead₂ : HeaderOk m₂ b (lastAddr p pre) (headAddr 0 post) :=
      hhead.congr ((hm₁ _ _ (by omega)).trans (hm₂ _ _ (by omega)))
    have hhead₃ : HeaderOk (setSize (setNext m₂ b.start nb) b.start wanted)
        ⟨b.start, wanted, b.used⟩ (lastAddr p pre) nb := by
      refine ⟨Mem.read_write_of_lt (by omega), ?_, ?_, ?_, by simp [hu]⟩
      · refine Eq.trans ?_ hhead₂.free
        exact (Mem.read_write_of_disjoint (by dsimp only; omega)).trans
          (Mem.read_write_of_disjoint (by dsimp only; omega))
      · exact (Mem.read_write_of_disjoint (by dsimp only; omega)).trans
          (Mem.read_write_of_lt (by omega))
      · refine Eq.trans ?_ hhead₂.prev
        exact (Mem.read_write_of_disjoint (by dsimp only; omega)).trans
          (Mem.read_write_of_disjoint (by dsimp only; omega))
    rw [List.cons_append, List.singleton_append, linked_mid, headAddr_cons, linked_cons]
    refine ⟨?_, hhead₃, ?_, ?_⟩
    · exact hpre.congr tpre rpre (((hm₁ _ _ (by omega)).trans (hm₂ _ _ (by omega))).trans
        (hm₃ _ _ (by omega)))
    · exact hrest.congr ((hm₂ _ _ (by dsimp only; omega)).trans
        (hm₃ _ _ (by dsimp only; omega)))
    · exact hpost₂.congr tpost rpost (hm₃ _ _ (by omega))

end Statements

/-! ## The list operations keep the invariant -/

section Lists

variable {lo hi : Nat} {pre post : List Seg} {b : Seg}

/-- Replacing a segment by segments that tile the same stretch. -/
theorem tiles_replace {mid : List Seg} (ht : Tiles sizeofBlock lo (pre ++ b :: post) hi)
    (hmid : Tiles sizeofBlock b.start mid (b.start + sizeofBlock + b.size)) :
    Tiles sizeofBlock lo (pre ++ (mid ++ post)) hi := by
  obtain ⟨tpre, tpost⟩ := tiles_mid ht
  exact tiles_append.mpr ⟨b.start, tpre, tiles_append.mpr ⟨_, hmid, tpost⟩⟩

theorem tiles_cut {wanted : Nat} (hle : wanted ≤ b.size) :
    Tiles sizeofBlock b.start (cut b wanted) (b.start + sizeofBlock + b.size) := by
  unfold cut
  split
  · simp
  · simp only [sizeofBlock] at *
    simp
    omega

theorem roomy_cut {wanted : Nat} (hb : sizeofMagic ≤ b.size) (hw : sizeofMagic ≤ wanted) :
    Roomy (cut b wanted) := by
  unfold cut
  split
  · simpa [Roomy] using hb
  · simp only [sizeofBlock, sizeofMagic] at *
    simp [Roomy, sizeofMagic]
    omega

theorem tiles_mark (ht : Tiles sizeofBlock lo (pre ++ b :: post) hi) (used : Bool) :
    Tiles sizeofBlock lo (pre ++ { b with used := used } :: post) hi := by
  have hone : Tiles sizeofBlock b.start [{ b with used := used }]
      (b.start + sizeofBlock + b.size) := by simp
  exact tiles_replace ht hone

/-- Replacing a segment by roomy ones. -/
theorem roomy_replace {mid : List Seg} (hr : Roomy (pre ++ b :: post)) (hmid : Roomy mid) :
    Roomy (pre ++ (mid ++ post)) := by
  obtain ⟨rpre, rb⟩ := roomy_append.mp hr
  exact roomy_append.mpr ⟨rpre, roomy_append.mpr ⟨hmid, (roomy_cons.mp rb).2⟩⟩

theorem roomy_mark (hr : Roomy (pre ++ b :: post)) (used : Bool) :
    Roomy (pre ++ { b with used := used } :: post) := by
  have hone : Roomy [{ b with used := used }] := by simpa [Roomy] using hr b (by simp)
  exact roomy_replace hr hone

/-- The first piece of a cut is the block itself; carving marks it used. -/
theorem cut_head (b : Seg) (wanted : Nat) :
    ∃ f r, cut b wanted = f :: r ∧ f.start = b.start ∧
      carve b wanted = { f with used := true } :: r := by
  unfold carve cut
  split
  · exact ⟨b, [], rfl, rfl, rfl⟩
  · exact ⟨⟨b.start, wanted, b.used⟩, _, rfl, rfl, rfl⟩

theorem usedSegs_carve (b : Seg) (wanted : Nat) :
    ∃ z, usedSegs (carve b wanted) = [⟨b.start, z, true⟩] ∧
      (z = b.size ∨ z = wanted) := by
  unfold carve cut
  split
  · exact ⟨b.size, rfl, Or.inl rfl⟩
  · exact ⟨wanted, rfl, Or.inr rfl⟩

/-- Carving a free block leaves no two free neighbours. -/
theorem coalesced_carve {wanted : Nat} (hc : Coalesced (pre ++ b :: post))
    (hb : b.used = false) :
    Coalesced (pre ++ (carve b wanted ++ post)) := by
  obtain ⟨hpre, hpost⟩ := hc.append
  obtain ⟨_, hnext⟩ := hc.neighbours_used hb
  have hrest : Coalesced (carve b wanted ++ post) := by
    unfold carve cut
    split
    · exact coalesced_cons hpost.of_cons (fun a _ => Or.inl rfl)
    · refine coalesced_cons (coalesced_cons hpost.of_cons ?_) (fun a _ => Or.inl rfl)
      intro a ha
      exact Or.inr (hnext a ha)
  refine coalesced_append hpre hrest ?_
  intro x _ y hy
  right
  unfold carve cut at hy
  split at hy <;> simp at hy <;> subst hy <;> rfl

theorem tiles_joinForward (ht : Tiles sizeofBlock lo (b :: post) hi) :
    Tiles sizeofBlock lo (joinForward b post) hi := by
  cases post with
  | nil => exact ht
  | cons c r =>
    rw [joinForward]
    split
    · exact ht
    · refine ⟨ht.1, ?_⟩
      have hr := ht.2.2
      rwa [show lo + sizeofBlock + b.size + sizeofBlock + c.size =
        lo + sizeofBlock + (b.size + sizeofBlock + c.size) by omega] at hr

theorem roomy_joinForward (hr : Roomy (b :: post)) : Roomy (joinForward b post) := by
  obtain ⟨hb, hpost⟩ := roomy_cons.mp hr
  cases post with
  | nil => exact hr
  | cons c r =>
    rw [joinForward]
    split
    · exact hr
    · refine roomy_cons.mpr ⟨?_, (roomy_cons.mp hpost).2⟩
      dsimp only
      omega

/-- Joining a free block forward gives a free block before a used one. -/
theorem coalesced_joinForward (hc : Coalesced post) (hb : b.used = false) :
    ∃ f r, joinForward b post = f :: r ∧ f.start = b.start ∧ f.used = false ∧
      Coalesced (f :: r) ∧ usedSegs r = usedSegs post := by
  cases post with
  | nil => exact ⟨b, [], rfl, rfl, hb, List.IsChain.singleton b, rfl⟩
  | cons c r =>
    cases hcu : c.used with
    | true =>
      refine ⟨b, c :: r, by simp [joinForward, hcu], rfl, hb, ?_, rfl⟩
      exact coalesced_cons hc (by simp [hcu])
    | false =>
      refine ⟨{ b with size := b.size + sizeofBlock + c.size }, r, by simp [joinForward, hcu],
        rfl, hb, ?_, (usedSegs_cons_free hcu r).symm⟩
      refine coalesced_cons hc.of_cons ?_
      intro a ha
      exact Or.inr (hc.next_used hcu a ha)

theorem tiles_joinBackward {rest : List Seg} (ht : Tiles sizeofBlock lo (pre ++ rest) hi) :
    Tiles sizeofBlock lo (joinBackward pre rest) hi := by
  rcases joinBackward_cases pre rest with ⟨_, h⟩ | ⟨pre', q, rfl, _, h⟩
  · rw [h]
    exact ht
  · rw [h]
    rw [List.append_assoc] at ht
    obtain ⟨mid, tpre, tq⟩ := tiles_append.mp ht
    exact tiles_append.mpr ⟨mid, tpre, tiles_joinForward tq⟩

theorem roomy_joinBackward {rest : List Seg} (hr : Roomy (pre ++ rest)) :
    Roomy (joinBackward pre rest) := by
  rcases joinBackward_cases pre rest with ⟨_, h⟩ | ⟨pre', q, rfl, _, h⟩
  · rw [h]
    exact hr
  · rw [h]
    rw [List.append_assoc] at hr
    obtain ⟨rpre, rq⟩ := roomy_append.mp hr
    exact roomy_append.mpr ⟨rpre, roomy_joinForward rq⟩

/-- The backward join leaves no two free neighbours: the segment before the one
it extends is used, because `pre` was coalesced. -/
theorem coalesced_joinBackward {rest : List Seg} (hpre : Coalesced pre)
    (hrest : Coalesced rest) :
    Coalesced (joinBackward pre rest) := by
  rcases joinBackward_cases pre rest with ⟨hlast, h⟩ | ⟨pre', q, rfl, hqu, h⟩
  · rw [h]
    refine coalesced_append hpre hrest ?_
    intro x hx y _
    exact Or.inl (hlast x hx)
  · rw [h]
    obtain ⟨g, t, hg, _, _, hgc, _⟩ := coalesced_joinForward hrest hqu
    rw [hg]
    refine coalesced_append hpre.append.1 hgc ?_
    intro x hx y _
    exact Or.inl ((hpre.neighbours_used hqu).1 x hx)

/-- Joining free segments does not change the used ones. -/
theorem usedSegs_joinForward (hb : b.used = false) :
    usedSegs (joinForward b post) = usedSegs post := by
  cases post with
  | nil => simp [joinForward, usedSegs, hb]
  | cons c r =>
    cases hc : c.used <;> simp [joinForward, usedSegs, hb, hc]

theorem usedSegs_release :
    usedSegs (release pre b post) = usedSegs pre ++ usedSegs post := by
  have hfwd : usedSegs (joinForward { b with used := false } post) = usedSegs post :=
    usedSegs_joinForward rfl
  unfold release
  rcases joinBackward_cases pre (joinForward { b with used := false } post) with
    ⟨_, h⟩ | ⟨pre', q, rfl, hqu, h⟩
  · rw [h, usedSegs_append, hfwd]
  · rw [h, usedSegs_append, usedSegs_joinForward hqu, hfwd, usedSegs_append,
      usedSegs_cons_free hqu, usedSegs_nil, List.append_nil]

end Lists

/-! ## Sizes -/

/-- `& ~15` on a 64-bit value. -/
theorem and_not_fifteen {x : Nat} (hx : x < 2 ^ 64) :
    x &&& (2 ^ 64 - 1 - 15) = x / 16 * 16 := by
  have hmask : (2 ^ 64 - 1 - 15 : Nat) = (2 ^ 60 - 1) <<< 4 := by decide
  have hround : x / 16 * 16 = (x >>> 4) <<< 4 := by
    rw [Nat.shiftLeft_eq, Nat.shiftRight_eq_div_pow]
  rw [hmask, hround]
  apply Nat.eq_of_testBit_eq
  intro i
  rw [Nat.testBit_and, Nat.testBit_shiftLeft, Nat.testBit_shiftLeft, Nat.testBit_shiftRight,
    Nat.testBit_two_pow_sub_one]
  by_cases hi : 4 ≤ i
  · simp only [hi, decide_true, Bool.true_and]
    rw [show 4 + (i - 4) = i by omega]
    by_cases hi' : i < 64
    · simp [show i - 4 < 60 by omega]
    · rw [Nat.testBit_lt_two_pow (Nat.lt_of_lt_of_le hx (Nat.pow_le_pow_right (by decide)
        (by omega)))]
      rfl
  · simp [hi]

theorem align16_eq (n : Nat) : align16 n = (n + 15) % 2 ^ 64 / 16 * 16 :=
  and_not_fifteen (Nat.mod_lt _ (by decide))

/-- The bytes `kmalloc(n)` asks `find_free_block` for. -/
def totalNeeded (n : Nat) : Nat := align16 n + sizeofMagic

/-- Adding the magic word never wraps: the rounded size is a multiple of 16. -/
theorem totalNeeded_lt (n : Nat) : totalNeeded n < 2 ^ 64 := by
  unfold totalNeeded
  rw [align16_eq, sizeofMagic]
  omega

theorem magic_le_totalNeeded (n : Nat) : sizeofMagic ≤ totalNeeded n := by
  unfold totalNeeded
  omega

/-- Below the last 15 values of `size_t` the rounding gives at least the bytes
asked for. -/
theorem le_align16 {n : Nat} (h : n ≤ 2 ^ 64 - 16) : n ≤ align16 n := by
  rw [align16_eq, Nat.mod_eq_of_lt (by omega)]
  omega

/-! ## Whole calls -/

section Calls

variable {A : Arena} {s : HeapState} {l : List Seg}

theorem kmalloc_none {n : Nat} (hn : n ≠ 0)
    (hfind : findFreeBlock s.mem (totalNeeded n) loopFuel s.heapList = some 0) :
    kmalloc s n = (.panic .HEAP panicHeapOom, s) := by
  have htotal : add64 (align16 n) sizeofMagic = totalNeeded n := add64_of_lt (totalNeeded_lt n)
  unfold kmalloc
  dsimp only
  rw [if_neg hn, htotal, hfind]
  rfl

theorem kmalloc_some {n b : Nat} (hn : n ≠ 0)
    (hfind : findFreeBlock s.mem (totalNeeded n) loopFuel s.heapList = some b) (hb : b ≠ 0)
    (hrange : b + sizeofBlock + sizeofMagic < 2 ^ 64) :
    kmalloc s n = (.ret (b + sizeofBlock + sizeofMagic),
      { s with mem := mark (splitBlock s.mem b (totalNeeded n)) b true }) := by
  have htotal : add64 (align16 n) sizeofMagic = totalNeeded n := add64_of_lt (totalNeeded_lt n)
  have hptr : add64 (add64 b sizeofBlock) sizeofMagic = b + sizeofBlock + sizeofMagic := by
    rw [add64_of_lt (a := b) (by omega), add64_of_lt hrange]
  unfold kmalloc
  dsimp only
  rw [if_neg hn, htotal, hfind]
  dsimp only
  rw [if_neg hb, hptr]
  rfl

/-- **`kmalloc`.**  First fit on the list: out of memory when no free block is
large enough, and otherwise the first one is carved. -/
theorem kmalloc_spec (R : Represents A s l) {n : Nat} (hn : n ≠ 0) :
    ((∀ a ∈ l, fits (totalNeeded n) a = false) ∧
      kmalloc s n = (.panic .HEAP panicHeapOom, s)) ∨
    ∃ pre b post s', l = pre ++ b :: post ∧ b.used = false ∧ totalNeeded n ≤ b.size ∧
      (∀ a ∈ pre, fits (totalNeeded n) a = false) ∧
      kmalloc s n = (.ret (b.start + sizeofBlock + sizeofMagic), s') ∧
      Represents A s' (pre ++ (carve b (totalNeeded n) ++ post)) := by
  have hfind := R.findFreeBlock_eq (totalNeeded n)
  cases hf : l.find? (fits (totalNeeded n)) with
  | none =>
    rw [hf] at hfind
    exact Or.inl ⟨by simpa using hf, kmalloc_none hn hfind⟩
  | some b =>
    right
    rw [hf] at hfind
    obtain ⟨hfit, pre, post, rfl, hpre⟩ := List.find?_eq_some_iff_append.mp hf
    obtain ⟨hu, hle⟩ : b.used = false ∧ totalNeeded n ≤ b.size := by
      simpa [fits] using hfit
    obtain ⟨hpos, htop, hrange⟩ := R.bounds (b := b) (by simp)
    have hroomb : sizeofMagic ≤ b.size := R.roomy b (by simp)
    have hw := magic_le_totalNeeded n
    -- `split_block`, then the mark on the first piece
    have hcutTiles := tiles_replace R.tiles (tiles_cut hle)
    have hcutRoom := roomy_replace R.roomy (roomy_cut hroomb hw)
    have hsplit := R.linked.splitBlock R.tiles R.roomy hu hle hw A.base_pos A.in_range
    obtain ⟨f, r, hcut, hfstart, hcarve⟩ := cut_head b (totalNeeded n)
    rw [hcut, List.cons_append] at hsplit hcutTiles hcutRoom
    have hmark := hsplit.mark_mid hcutTiles hcutRoom true
    rw [hfstart] at hmark
    refine ⟨pre, b, post, _, rfl, hu, hle, by simpa using hpre,
      kmalloc_some hn hfind (Nat.ne_of_gt hpos) ?_, R.list, ?_, ?_, ?_, ?_⟩
    · omega
    · exact tiles_replace R.tiles (tiles_cut (b := { b with used := true }) hle)
    · exact coalesced_carve R.coalesced hu
    · exact roomy_replace R.roomy (roomy_cut (b := { b with used := true }) hroomb hw)
    · rw [hcarve, hfstart]
      exact hmark

theorem kfree_eq {b : Nat} (hb : b ≠ 0) (hrange : b + sizeofBlock + sizeofMagic < 2 ^ 64)
    (hmagic : magicSlot s.mem b = blockMagic) :
    kfree s (b + sizeofBlock + sizeofMagic) =
      (.ret (),
        { s with mem := coalesceBackward (coalesceForward (mark s.mem b false) b) b }) := by
  have hslot : sub64 (b + sizeofBlock + sizeofMagic) sizeofMagic = b + 32 := by
    rw [sub64_of_le (by omega) hrange]
    simp [sizeofBlock]
  have hblock : sub64 (b + 32) sizeofBlock = b := by
    rw [sizeofBlock, sub64_of_le (by omega) (by simp only [sizeofBlock] at hrange; omega)]
    omega
  unfold kfree
  dsimp only
  rw [if_neg (by omega), hslot, if_neg (by simpa [magicSlot] using hmagic), hblock]
  rfl

/-- **`kfree`** of a live block: the block becomes free and is joined with its
free neighbours, once in each direction. -/
theorem kfree_spec {pre post : List Seg} {b : Seg} (R : Represents A s (pre ++ b :: post))
    (hu : b.used = true) :
    ∃ s', kfree s (b.start + sizeofBlock + sizeofMagic) = (.ret (), s') ∧
      Represents A s' (release pre b post) := by
  obtain ⟨hpos, htop, hrange⟩ := R.bounds (b := b) (by simp)
  have hroomb : sizeofMagic ≤ b.size := R.roomy b (by simp)
  have hmagic := (linked_mid.mp R.linked).2.1.magic hu
  obtain ⟨hcpre, hcb⟩ := R.coalesced.append
  -- the block is marked free and joined with what follows
  have htMark := tiles_mark R.tiles false
  have hrMark := roomy_mark R.roomy false
  have hmark := R.linked.mark_mid R.tiles R.roomy false
  have hjoin := hmark.coalesceForward htMark hrMark rfl A.base_pos A.in_range
  obtain ⟨mid, tpre, tb⟩ := tiles_append.mp htMark
  have htJoin := tiles_append.mpr ⟨mid, tpre, tiles_joinForward tb⟩
  obtain ⟨rpre, rb⟩ := roomy_append.mp hrMark
  have hrJoin := roomy_append.mpr ⟨rpre, roomy_joinForward rb⟩
  -- then with what precedes it
  obtain ⟨f, r, hf, hfstart, _, hfc, _⟩ :=
    coalesced_joinForward (b := { b with used := false }) hcb.of_cons rfl
  have hfstart : f.start = b.start := hfstart
  rw [hf] at hjoin htJoin hrJoin
  dsimp only at hjoin
  have hback := hjoin.coalesceBackward htJoin hrJoin A.base_pos A.in_range
  rw [hfstart] at hback
  refine ⟨_, kfree_eq (Nat.ne_of_gt hpos) (by omega) hmagic, R.list, ?_, ?_, ?_, ?_⟩ <;>
    rw [release, hf]
  · exact tiles_joinBackward htJoin
  · exact coalesced_joinBackward hcpre hfc
  · exact roomy_joinBackward hrJoin
  · dsimp only
    exact hback

/-- `heap_init` makes the single free block. -/
theorem heapInit_spec (A : Arena) (m : Mem) :
    Represents A (heapInit A m) [⟨A.base, heapSize - sizeofBlock, false⟩] := by
  have hroom : sizeofMagic ≤ heapSize - sizeofBlock := by decide
  have hfill : sizeofBlock + (heapSize - sizeofBlock) = heapSize := by decide
  have hheader : HeaderOk (freeHeader m A.base (heapSize - sizeofBlock) 0 0)
      ⟨A.base, heapSize - sizeofBlock, false⟩ 0 0 :=
    headerOk_freeHeader (by decide) (by decide) (by decide)
  refine ⟨rfl, ⟨rfl, ?_⟩, List.IsChain.singleton _, ?_, hheader, trivial⟩
  · rw [tiles_nil, Nat.add_assoc, hfill]
    rfl
  · intro b hb
    rw [List.mem_singleton.mp hb]
    exact hroom

end Calls

end NekaKernel.Heap
