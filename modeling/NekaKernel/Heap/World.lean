/-
  Heap/World.lean --- the heap together with the code that uses it.

  Source: `heap.c`, with the callers' side of the contract: a pointer is live
  from the `kmalloc` that returned it to the `kfree` that takes it, and its owner
  may write any byte of the payload.

  `worldInv_of_reach` is the invariant of every run.
-/
import NekaKernel.Foundation.Run
import NekaKernel.Heap.Refine

set_option autoImplicit false

namespace NekaKernel.Heap

open NekaKernel.Foundation NekaKernel.Kernel

/-! ## Runs -/

/-- The heap and the live pointers, each with the size it was asked for. -/
structure World where
  heap : HeapState
  live : List (Nat × Nat)

/-- What the rest of the kernel does with the heap. -/
inductive Call where
  | kmalloc (n : Nat)
  | kfree (ptr : Nat)
  /-- The owner of `ptr` stores one byte at `addr`. -/
  | store (ptr addr : Nat) (byte : UInt8)

/-- The live pointers. -/
def World.pointers (w : World) : List Nat := w.live.map Prod.fst

/-- `b->size` of the block a payload pointer belongs to. -/
def blockSizeOf (m : Mem) (ptr : Nat) : Nat := size m (ptr - sizeofMagic - sizeofBlock)

/-- One call.  A `kmalloc` that runs out of memory stops the machine with the
heap as it is; freeing or writing through a pointer that is not live is not a
call the callers make. -/
def World.step (w : World) : Call → Option World
  | .kmalloc n =>
      if n < 2 ^ 64 then
        match kmalloc w.heap n with
        | (.ret p, h) => some ⟨h, if p = 0 then w.live else (p, n) :: w.live⟩
        | (.panic _ _, h) => some ⟨h, w.live⟩
        | (.hang, _) => none
      else none
  | .kfree ptr =>
      if ptr ∈ w.pointers then
        match kfree w.heap ptr with
        | (.ret _, h) => some ⟨h, w.live.filter fun e => e.1 ≠ ptr⟩
        | _ => none
      else none
  | .store ptr addr byte =>
      if ptr ∈ w.pointers ∧ ptr ≤ addr ∧
        addr < ptr + blockSizeOf w.heap.mem ptr - sizeofMagic then
        some ⟨{ w.heap with mem := w.heap.mem.write addr 1 byte.toNat }, w.live⟩
      else none

/-- A run starts after `heap_init`, on whatever the arena held before. -/
def World.Initial (A : Arena) (w : World) : Prop := ∃ m, w = ⟨heapInit A m, []⟩

/-- The worlds that runs reach. -/
def World.Reachable (A : Arena) : World → Prop :=
  Reach (World.Initial A) World.step fun _ _ => True

/-! ## The invariant -/

/-- The pointer `kmalloc` returned for a segment. -/
def payload (b : Seg) : Nat := b.start + sizeofBlock + sizeofMagic

/-- **The invariant of the runs**: the heap represents the list, its used blocks
are the live pointers, and each is as large as its owner asked. -/
structure WorldInv (A : Arena) (w : World) (l : List Seg) : Prop where
  rep : Represents A w.heap l
  live : ∀ p, p ∈ w.pointers ↔ ∃ b ∈ usedSegs l, payload b = p
  nodup : w.pointers.Nodup
  asked : ∀ e ∈ w.live, e.2 ≠ 0 ∧ e.2 < 2 ^ 64 ∧
    ∀ b ∈ usedSegs l, payload b = e.1 → totalNeeded e.2 ≤ b.size

theorem payload_inj {b c : Seg} (h : payload b = payload c) : b.start = c.start := by
  unfold payload at h
  omega

/-- Two used blocks with one pointer are one block. -/
theorem WorldInv.block_unique {A : Arena} {w : World} {l : List Seg} (I : WorldInv A w l)
    {b c : Seg} (hb : b ∈ usedSegs l) (hc : c ∈ usedSegs l)
    (h : payload b = payload c) : b = c :=
  I.rep.tiles.eq_of_start (by decide) (mem_usedSegs.mp hb).1 (mem_usedSegs.mp hc).1
    (payload_inj h)

theorem worldInv_init {A : Arena} {w : World} (h : World.Initial A w) :
    WorldInv A w [⟨A.base, heapSize - sizeofBlock, false⟩] := by
  obtain ⟨m, rfl⟩ := h
  refine ⟨heapInit_spec A m, ?_, List.nodup_nil, by simp⟩
  intro p
  simp [World.pointers, usedSegs]

/-! ## One call at a time -/

/-- What a successful `kmalloc` does to the used blocks: one more, at a new
address and large enough. -/
theorem usedSegs_after_carve (pre post : List Seg) {b : Seg} {wanted : Nat}
    (hu : b.used = false) (hle : wanted ≤ b.size) :
    ∃ z, wanted ≤ z ∧ usedSegs (pre ++ b :: post) = usedSegs pre ++ usedSegs post ∧
      usedSegs (pre ++ (carve b wanted ++ post)) =
        usedSegs pre ++ ⟨b.start, z, true⟩ :: usedSegs post := by
  obtain ⟨z, hz, hsize⟩ := usedSegs_carve b wanted
  refine ⟨z, by omega, ?_, ?_⟩
  · rw [usedSegs_append, usedSegs_cons_free hu]
  · rw [usedSegs_append, usedSegs_append, hz, List.singleton_append]

theorem WorldInv.kmalloc {A : Arena} {w : World} {pre post : List Seg} {b : Seg} {n : Nat}
    {h' : HeapState} (I : WorldInv A w (pre ++ b :: post)) (hn : n ≠ 0) (hn64 : n < 2 ^ 64)
    (hu : b.used = false) (hle : totalNeeded n ≤ b.size)
    (R : Represents A h' (pre ++ (carve b (totalNeeded n) ++ post))) :
    WorldInv A ⟨h', (payload b, n) :: w.live⟩ (pre ++ (carve b (totalNeeded n) ++ post)) := by
  obtain ⟨z, hz, hold, hnew⟩ := usedSegs_after_carve pre post hu hle
  -- no used block starts where the free block did
  have hfresh : ∀ c ∈ usedSegs (pre ++ b :: post), c.start ≠ b.start := by
    intro c hc heq
    obtain ⟨hc, hcu⟩ := mem_usedSegs.mp hc
    have : c = b := I.rep.tiles.eq_of_start (by decide) hc (by simp) heq
    rw [this, hu] at hcu
    simp at hcu
  have hmem : ∀ c, c ∈ usedSegs (pre ++ (carve b (totalNeeded n) ++ post)) ↔
      c = ⟨b.start, z, true⟩ ∨ c ∈ usedSegs (pre ++ b :: post) := by
    intro c
    rw [hnew, hold]
    simp only [List.mem_append, List.mem_cons]
    tauto
  have hnotlive : payload b ∉ w.pointers := by
    intro hp
    obtain ⟨c, hc, hcp⟩ := (I.live _).mp hp
    exact hfresh c hc (payload_inj hcp)
  refine ⟨R, ?_, ?_, ?_⟩
  · intro p
    simp only [World.pointers, List.map_cons, List.mem_cons]
    constructor
    · rintro (rfl | hp)
      · exact ⟨_, (hmem _).mpr (Or.inl rfl), rfl⟩
      · obtain ⟨c, hc, hcp⟩ := (I.live p).mp hp
        exact ⟨c, (hmem c).mpr (Or.inr hc), hcp⟩
    · rintro ⟨c, hc, rfl⟩
      rcases (hmem c).mp hc with rfl | hc
      · exact Or.inl rfl
      · exact Or.inr ((I.live _).mpr ⟨c, hc, rfl⟩)
  · exact List.nodup_cons.mpr ⟨hnotlive, I.nodup⟩
  · intro e he
    rcases List.mem_cons.mp he with rfl | he
    · refine ⟨hn, hn64, ?_⟩
      intro c hc hcp
      rcases (hmem c).mp hc with rfl | hc
      · exact hz
      · exact absurd (payload_inj hcp) (hfresh c hc)
    · obtain ⟨he0, he64, hsize⟩ := I.asked e he
      refine ⟨he0, he64, ?_⟩
      intro c hc hcp
      rcases (hmem c).mp hc with rfl | hc
      · -- the old pointer is live, the new one was not
        have : e.1 ∈ w.pointers := List.mem_map_of_mem he
        rw [← hcp] at this
        exact absurd this hnotlive
      · exact hsize c hc hcp

/-- What `kfree` does to the used blocks: one less. -/
theorem mem_usedSegs_release {lo hi : Nat} {pre post : List Seg} {b : Seg}
    (t : Tiles sizeofBlock lo (pre ++ b :: post) hi) (hu : b.used = true) (c : Seg) :
    c ∈ usedSegs (release pre b post) ↔ c ∈ usedSegs (pre ++ b :: post) ∧ c ≠ b := by
  obtain ⟨tpre, tpost⟩ := tiles_mid t
  have hpre : b ∉ pre := by
    intro hmem
    have := (tpre.mem_bounds hmem).2
    simp only [sizeofBlock] at this
    omega
  have hpost : b ∉ post := by
    intro hmem
    have := (tpost.mem_bounds hmem).1
    simp only [sizeofBlock] at this
    omega
  rw [usedSegs_release, usedSegs_append, usedSegs_cons_used hu]
  simp only [List.mem_append, List.mem_cons, mem_usedSegs]
  constructor
  · rintro (hc | hc)
    · exact ⟨Or.inl hc, fun h => hpre (h ▸ hc.1)⟩
    · exact ⟨Or.inr (Or.inr hc), fun h => hpost (h ▸ hc.1)⟩
  · rintro ⟨hc | rfl | hc, hne⟩
    · exact Or.inl hc
    · exact absurd rfl hne
    · exact Or.inr hc

theorem WorldInv.kfree {A : Arena} {w : World} {pre post : List Seg} {b : Seg}
    {h' : HeapState} (I : WorldInv A w (pre ++ b :: post)) (hu : b.used = true)
    (R : Represents A h' (release pre b post)) :
    WorldInv A ⟨h', w.live.filter fun e => e.1 ≠ payload b⟩ (release pre b post) := by
  have hmem := mem_usedSegs_release I.rep.tiles hu
  have hb : b ∈ usedSegs (pre ++ b :: post) := mem_usedSegs.mpr ⟨by simp, hu⟩
  have hptr : ∀ p, p ∈ (w.live.filter fun e => e.1 ≠ payload b).map Prod.fst ↔
      p ∈ w.pointers ∧ p ≠ payload b := by
    intro p
    simp only [World.pointers, List.mem_map, List.mem_filter, decide_eq_true_eq]
    constructor
    · rintro ⟨e, ⟨he, hne⟩, rfl⟩
      exact ⟨⟨e, he, rfl⟩, hne⟩
    · rintro ⟨⟨e, he, rfl⟩, hne⟩
      exact ⟨e, ⟨he, hne⟩, rfl⟩
  refine ⟨R, ?_, ?_, ?_⟩
  · intro p
    refine (hptr p).trans ?_
    rw [I.live p]
    constructor
    · rintro ⟨⟨c, hc, rfl⟩, hne⟩
      exact ⟨c, (hmem c).mpr ⟨hc, fun h => hne (h ▸ rfl)⟩, rfl⟩
    · rintro ⟨c, hc, rfl⟩
      obtain ⟨hc, hne⟩ := (hmem c).mp hc
      exact ⟨⟨c, hc, rfl⟩, fun h => hne (I.block_unique hc hb h)⟩
  · exact I.nodup.sublist (List.filter_sublist.map _)
  · intro e he
    obtain ⟨he0, he64, hsize⟩ := I.asked e (List.mem_filter.mp he).1
    exact ⟨he0, he64, fun c hc hcp => hsize c ((hmem c).mp hc).1 hcp⟩

/-- A byte of a used payload behind the magic word belongs to no header. -/
theorem Represents.store {A : Arena} {s : HeapState} {pre post : List Seg} {b : Seg}
    (R : Represents A s (pre ++ b :: post)) {addr v : Nat}
    (hlo : payload b ≤ addr) (hhi : addr < b.start + sizeofBlock + b.size) :
    Represents A { s with mem := s.mem.write addr 1 v } (pre ++ b :: post) := by
  simp only [payload, sizeofBlock, sizeofMagic] at hlo hhi
  obtain ⟨_, hhead, _⟩ := linked_mid.mp R.linked
  refine ⟨R.list, R.tiles, R.coalesced, R.roomy, ?_⟩
  refine R.linked.replace_mid R.tiles R.roomy rfl ?_ ?_ (hhead.congr ?_)
  · exact Mem.agree_write (by omega)
  · simp only [sizeofBlock]
    exact Mem.agree_write (by omega)
  · exact Mem.agree_write (by omega)

/-! ## The invariant of the runs -/

theorem HeaderOk.blockSizeOf_eq {m : Mem} {b : Seg} {p n : Nat} (h : HeaderOk m b p n) :
    blockSizeOf m (payload b) = b.size := by
  unfold blockSizeOf payload
  rw [Nat.add_sub_cancel, Nat.add_sub_cancel]
  exact h.size

/-- A live pointer is the payload of a used block of the list. -/
theorem WorldInv.find_block {A : Arena} {w : World} {l : List Seg}
    (I : WorldInv A w l) {p : Nat} (hp : p ∈ w.pointers) :
    ∃ pre b post, l = pre ++ b :: post ∧ b.used = true ∧ p = payload b := by
  obtain ⟨b, hb, rfl⟩ := (I.live p).mp hp
  obtain ⟨hb, hu⟩ := mem_usedSegs.mp hb
  obtain ⟨pre, post, rfl⟩ := List.append_of_mem hb
  exact ⟨pre, b, post, rfl, hu, rfl⟩

/-- **Step lemma.**  Every call keeps the invariant. -/
theorem worldInv_step {A : Arena} {w w' : World} {l : List Seg} {c : Call}
    (I : WorldInv A w l) (h : w.step c = some w') : ∃ l', WorldInv A w' l' := by
  cases c with
  | kmalloc n =>
    simp only [World.step] at h
    split at h
    · rename_i hn64
      by_cases hn : n = 0
      · subst hn
        simp [Heap.kmalloc] at h
        exact ⟨l, h ▸ I⟩
      · rcases kmalloc_spec I.rep hn
          with ⟨_, hoom⟩ | ⟨pre, b, post, s', rfl, hu, hle, _, hok, R⟩
        · rw [hoom] at h
          simp at h
          exact ⟨l, h ▸ I⟩
        · rw [hok] at h
          simp only [Option.some.injEq] at h
          rw [if_neg (by simp only [sizeofBlock]; omega)] at h
          exact ⟨_, h ▸ I.kmalloc hn hn64 hu hle R⟩
    · simp at h
  | kfree ptr =>
    simp only [World.step] at h
    split at h
    · rename_i hp
      obtain ⟨pre, b, post, rfl, hu, rfl⟩ := I.find_block hp
      obtain ⟨s', hok, R⟩ := kfree_spec I.rep hu
      rw [show payload b = b.start + sizeofBlock + sizeofMagic from rfl, hok] at h
      simp only [Option.some.injEq] at h
      exact ⟨_, h ▸ I.kfree hu R⟩
    · simp at h
  | store ptr addr byte =>
    simp only [World.step] at h
    split at h
    · rename_i hp
      obtain ⟨hp, hlo, hhi⟩ := hp
      obtain ⟨pre, b, post, rfl, hu, rfl⟩ := I.find_block hp
      rw [(linked_mid.mp I.rep.linked).2.1.blockSizeOf_eq] at hhi
      simp only [Option.some.injEq] at h
      subst h
      refine ⟨_, I.rep.store hlo ?_, I.live, I.nodup, I.asked⟩
      simp only [payload] at hlo hhi
      omega
    · simp at h

/-- **Run lemma.**  The invariant holds in every world that a run reaches. -/
theorem worldInv_of_reach {A : Arena} {w : World} (h : World.Reachable A w) :
    ∃ l, WorldInv A w l :=
  h.invariant (P := fun w => ∃ l, WorldInv A w l) (fun _ hi => ⟨_, worldInv_init hi⟩)
    (fun _ _ _ ⟨_, I⟩ _ hs => worldInv_step I hs)

/-! ## Calls always end -/

/-- `kfree` of a live pointer returns: it neither panics nor hangs. -/
theorem WorldInv.kfree_returns {A : Arena} {w : World} {pre post : List Seg} {b : Seg}
    (I : WorldInv A w (pre ++ b :: post)) (hu : b.used = true) :
    ∃ h', w.step (.kfree (payload b)) = some ⟨h', w.live.filter fun e => e.1 ≠ payload b⟩ ∧
      WorldInv A ⟨h', w.live.filter fun e => e.1 ≠ payload b⟩ (release pre b post) := by
  obtain ⟨h', hok, R⟩ := kfree_spec I.rep hu
  have hlive : payload b ∈ w.pointers := (I.live _).mpr ⟨b, mem_usedSegs.mpr ⟨by simp, hu⟩, rfl⟩
  refine ⟨h', ?_, I.kfree hu R⟩
  rw [World.step, if_pos hlive, show payload b = b.start + sizeofBlock + sizeofMagic
    from rfl, hok]

/-- Every `kmalloc` ends: with a pointer, or out of memory and the heap as it
was. -/
theorem WorldInv.kmalloc_ends {A : Arena} {w : World} {l : List Seg}
    (I : WorldInv A w l) (n : Nat) :
    (∃ p h', Heap.kmalloc w.heap n = (.ret p, h')) ∨
      Heap.kmalloc w.heap n = (.panic .HEAP panicHeapOom, w.heap) := by
  by_cases hn : n = 0
  · refine Or.inl ⟨0, w.heap, ?_⟩
    simp [Heap.kmalloc, hn]
  · rcases kmalloc_spec I.rep hn with ⟨_, hoom⟩ | ⟨_, b, _, h', _, _, _, _, hok, _⟩
    · exact Or.inr hoom
    · exact Or.inl ⟨_, h', hok⟩

/-- A `kmalloc` that returns keeps the invariant. -/
theorem WorldInv.kmalloc_ret {A : Arena} {w : World} {l : List Seg} {n p : Nat} {h' : HeapState}
    (I : WorldInv A w l) (hn : n ≠ 0) (hn64 : n < 2 ^ 64)
    (h : Heap.kmalloc w.heap n = (.ret p, h')) :
    ∃ l', WorldInv A ⟨h', (p, n) :: w.live⟩ l' := by
  rcases kmalloc_spec I.rep hn with ⟨_, hoom⟩ | ⟨pre, b, post, s', rfl, hu, hle, _, hok, R⟩
  · rw [hoom] at h
    cases h
  · rw [hok] at h
    cases h
    exact ⟨_, I.kmalloc hn hn64 hu hle R⟩

/-! ## Room -/

/-- Some free block is large enough for `k` allocations of `n` bytes, each split off
its front. -/
def HasRoom (n k : Nat) (l : List Seg) : Prop :=
  ∃ b ∈ l, b.used = false ∧ k * (totalNeeded n + 2 * sizeofBlock) ≤ b.size

theorem HasRoom.mono {n k k' : Nat} {l : List Seg} (h : HasRoom n k l) (hle : k' ≤ k) :
    HasRoom n k' l := by
  obtain ⟨b, hb, hfree, hsize⟩ := h
  exact ⟨b, hb, hfree, Nat.le_trans (Nat.mul_le_mul_right _ hle) hsize⟩

/-- The first of `k + 1` allocations returns, and leaves room for the others. -/
theorem WorldInv.kmalloc_room {A : Arena} {w : World} {l : List Seg} {n k : Nat}
    (I : WorldInv A w l) (hn : n ≠ 0) (hn64 : n < 2 ^ 64) (hroom : HasRoom n (k + 1) l) :
    ∃ p h' l', Heap.kmalloc w.heap n = (.ret p, h') ∧ WorldInv A ⟨h', (p, n) :: w.live⟩ l' ∧
      HasRoom n k l' := by
  obtain ⟨b, hb, hfree, hsize⟩ := hroom
  rw [Nat.add_mul, Nat.one_mul] at hsize
  rcases kmalloc_spec I.rep hn with ⟨hnone, _⟩ | ⟨pre, c, post, h', rfl, hu, hle, _, hok, R⟩
  · have hfit : fits (totalNeeded n) b = true := by
      simp only [fits, hfree, Bool.not_false, Bool.true_and, decide_eq_true_eq]
      omega
    rw [hnone b hb] at hfit
    cases hfit
  · refine ⟨_, h', _, hok, I.kmalloc hn hn64 hu hle R, ?_⟩
    by_cases hbc : b = c
    · -- the block itself is carved: the rest of it is free
      subst hbc
      refine ⟨⟨b.start + sizeofBlock + totalNeeded n, b.size - totalNeeded n - sizeofBlock,
        false⟩, ?_, rfl, ?_⟩
      · unfold carve cut
        rw [if_neg (by dsimp only; unfold sizeofBlock at *; omega)]
        simp
      · dsimp only
        omega
    · refine ⟨b, ?_, hfree, by omega⟩
      simp only [List.mem_append, List.mem_cons, hbc, false_or] at hb ⊢
      tauto

/-- A fresh heap has room for 62 allocations of 16 KiB. -/
theorem hasRoom_init (A : Arena) :
    HasRoom (16 * 1024) 62 [⟨A.base, heapSize - sizeofBlock, false⟩] := by
  have hsum : 62 * (totalNeeded (16 * 1024) + 2 * sizeofBlock) ≤
    heapSize - sizeofBlock := by decide
  exact ⟨_, List.mem_cons_self, rfl, hsum⟩

/-! ## Concrete runs -/

/-- An arena as the linker could place it, for the concrete runs. -/
def arenaAt2M : Arena := ⟨0x200000, by decide, by decide, by decide⟩

/-- The world after `heap_init`, on an arena of zeros. -/
def zeroWorld : World := ⟨heapInit arenaAt2M fun _ => 0, []⟩

theorem reachable_of_exec {calls : List Call} {w : World}
    (h : exec World.step zeroWorld calls = some w) : World.Reachable arenaAt2M w :=
  Reach.exec (Reach.start ⟨_, rfl⟩) (fun _ _ _ _ _ => trivial) h

/-- A `kmalloc` that fits into the empty heap returns the first payload. -/
theorem exists_first_alloc (A : Arena) {n : Nat} (hn : n ≠ 0) (hn64 : n < 2 ^ 64)
    (hfit : totalNeeded n ≤ heapSize - sizeofBlock) :
    ∃ h', World.Reachable A ⟨h', [(A.base + sizeofBlock + sizeofMagic, n)]⟩ := by
  have hstart : World.Reachable A ⟨heapInit A fun _ => 0, []⟩ := Reach.start ⟨_, rfl⟩
  have R := heapInit_spec A fun _ => 0
  rcases kmalloc_spec R hn with ⟨hnone, _⟩ | ⟨pre, b, post, h', hl, _, _, _, hok, _⟩
  · have := hnone _ List.mem_cons_self
    simp [fits, hfit] at this
  · have hb : b = ⟨A.base, heapSize - sizeofBlock, false⟩ := by
      have : b ∈ [(⟨A.base, heapSize - sizeofBlock, false⟩ : Seg)] := by simp [hl]
      exact List.mem_singleton.mp this
    subst hb
    refine ⟨h', Reach.step hstart trivial (a := .kmalloc n) ?_⟩
    rw [World.step, if_pos hn64, hok]
    dsimp only
    rw [if_neg (by simp [sizeofBlock])]

end NekaKernel.Heap
