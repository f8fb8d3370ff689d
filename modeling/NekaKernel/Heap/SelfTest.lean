/-
  Heap/SelfTest.lean --- the allocator's self-test.

  Source: `heap_self_test` in `main64.c` and `heap_print_stats` in `heap.c`.

  The test allocates five blocks, fills three of them with patterns, looks for bytes
  that have changed, frees the blocks in another order and compares the free bytes.
  From any heap that the kernel reaches it finds nothing, and leaves every header as
  it was; short of memory it panics in one of its allocations.
-/
import NekaKernel.Console.Machine
import NekaKernel.Heap.Canonical
import NekaKernel.Heap.Contract

set_option autoImplicit false

namespace NekaKernel.Heap

open NekaKernel.Foundation NekaKernel.Kernel NekaKernel.Console

/-! ## The code -/

/-- The next statement, unless the call did not return. -/
def andThen {α β : Type} (x : Exit α × HeapState) (f : α → HeapState → Exit β × HeapState) :
    Exit β × HeapState :=
  match x with
  | (.ret a, s) => f a s
  | (.panic category code, s) => (.panic category code, s)
  | (.hang, s) => (.hang, s)

/-- A loop of `heap.c` over the blocks, which changes nothing. -/
def looped {α : Type} (result : Option α) (s : HeapState) : Exit α × HeapState :=
  match result with
  | some a => (.ret a, s)
  | none => (.hang, s)

/-- `heap_print_stats`: what it prints. -/
def heapPrintStats (s : HeapState) : Option (List CString) :=
  (heapFreeBytes s).bind fun freeBytes => (blockList s).map fun blocks =>
    [cString (ascii "[heap] free="), kprintHex64 freeBytes, cString (ascii " bytes, blocks="),
      kprintHex64 blocks.length, cString (ascii "\n")]

/-- `for (int i = 0; i < n; i++) ((uint8_t*)p)[i] = v`. -/
def fill (m : Mem) (p : Nat) : Nat → Nat → Mem
  | 0, _ => m
  | n + 1, v => (fill m p n v).write (p + n) 1 v

/-- `for (int i = 0; i < n; i++) if (((uint8_t*)p)[i] != v) corrupted = 1`. -/
def differs (m : Mem) (p n v : Nat) : Bool := (List.range n).any fun i => m.read (p + i) 1 ≠ v

/-- `heap_self_test`: what it prints. -/
def heapSelfTest (s : HeapState) : Exit (List CString) × HeapState :=
  andThen (looped (heapPrintStats s) s) fun before s =>
  andThen (looped (heapFreeBytes s) s) fun initialFree s =>
  andThen (kmalloc s 100) fun p1 s =>
  andThen (kmalloc s 4000) fun p2 s =>
  andThen (kmalloc s 50) fun p3 s =>
  andThen (kmalloc s 20000) fun p4 s =>
  andThen (kmalloc s 16) fun p5 s =>
  let m := fill (fill (fill s.mem p1 100 0xAA) p3 50 0xBB) p5 16 0xCC
  let corrupted := differs m p1 100 0xAA || differs m p3 50 0xBB || differs m p5 16 0xCC
  let s := { s with mem := m }
  andThen (looped (heapPrintStats s) s) fun during s =>
  andThen (kfree s p3) fun _ s =>
  andThen (kfree s p1) fun _ s =>
  andThen (kfree s p4) fun _ s =>
  andThen (kfree s p2) fun _ s =>
  andThen (kfree s p5) fun _ s =>
  andThen (looped (heapFreeBytes s) s) fun finalFree s =>
  andThen (looped (heapPrintStats s) s) fun after s =>
  (.ret (
    [cString (ascii "[heap] self-test starting...\n")] ++ before ++
    [if corrupted then cString (ascii "[heap] OVERLAP DETECTED after alloc!\n")
      else cString (ascii "[heap] no overlap after alloc, OK\n")] ++ during ++
    [cString (ascii "[heap] after freeing everything: ")] ++ after ++
    [if finalFree = initialFree then
      cString (ascii "[heap] self-test PASSED (free bytes fully recovered)\n\n")
      else cString
        (ascii "[heap] self-test FAILED: free bytes mismatch (leak or bad coalesce)\n\n")]), s)

/-! ## Patterns -/

section Patterns

variable {m : Mem} {p n v x : Nat}

theorem fill_outside (h : x < p ∨ p + n ≤ x) : fill m p n v x = m x := by
  induction n with
  | zero => rfl
  | succ n ih =>
    rw [fill, Mem.write_outside (by omega)]
    exact ih (by omega)

theorem fill_inside (hlo : p ≤ x) (hhi : x < p + n) : fill m p n v x = UInt8.ofNat v := by
  induction n with
  | zero => omega
  | succ n ih =>
    rw [fill]
    rcases Nat.lt_or_ge x (p + n) with h | h
    · rw [Mem.write_outside (.inl h)]
      exact ih h
    · obtain rfl : x = p + n := by omega
      simp [Mem.write]

/-- A pattern that is still there. -/
theorem differs_eq_false (hv : v < 256) (h : ∀ y, p ≤ y → y < p + n → m y = UInt8.ofNat v) :
    differs m p n v = false := by
  rw [differs, List.any_eq_false]
  intro i hi
  have hbyte := h (p + i) (Nat.le_add_right p i) (Nat.add_lt_add_left (List.mem_range.mp hi) p)
  simp [Mem.read, hbyte, Nat.mod_eq_of_lt hv]

end Patterns

/-! ## Allocations -/

/-- The used blocks of `l'` are those of `l` and some with these pointers. -/
structure Extends (l l' : List Seg) (ps : List Nat) : Prop where
  new : ∀ b ∈ usedSegs l', b ∈ usedSegs l ∨ payload b ∈ ps
  old : ∀ b ∈ usedSegs l, b ∈ usedSegs l'

theorem Extends.trans {l l' l'' : List Seg} {ps qs : List Nat} (h : Extends l l' ps)
    (h' : Extends l' l'' qs) :
    Extends l l'' (qs ++ ps) := by
  refine ⟨fun b hb => ?_, fun b hb => h'.old b (h.old b hb)⟩
  rw [List.mem_append]
  rcases h'.new b hb with hb' | hp
  · exact (h.new b hb').imp_right .inr
  · exact .inr (.inl hp)

/-- Some free block has this many bytes. -/
def Spare (room : Nat) (l : List Seg) : Prop := ∃ b ∈ l, b.used = false ∧ room ≤ b.size

theorem Spare.mono {room room' : Nat} {l : List Seg} (h : Spare room l) (hle : room' ≤ room) :
    Spare room' l := by
  obtain ⟨b, hb, hfree, hsize⟩ := h
  exact ⟨b, hb, hfree, Nat.le_trans hle hsize⟩

section Allocations

variable {A : Arena} {w : World} {l : List Seg} {n p : Nat}

/-- How an allocation ends, and the free block it leaves. -/
theorem WorldInv.kmalloc_cases (I : WorldInv A w l) (hn : n ≠ 0) (hn64 : n < 2 ^ 64) :
    (Heap.kmalloc w.heap n = (.panic .HEAP panicHeapOom, w.heap) ∧ ¬ Spare (totalNeeded n) l) ∨
    ∃ p h' l', Heap.kmalloc w.heap n = (.ret p, h') ∧ WorldInv A ⟨h', (p, n) :: w.live⟩ l' ∧
      Extends l l' [p] ∧
      ∀ room, Spare (totalNeeded n + 2 * sizeofBlock + room) l → Spare room l' := by
  rcases kmalloc_spec I.rep hn with ⟨hnone, hoom⟩ | ⟨pre, c, post, h', rfl, hu, hle, -, hok, R⟩
  · refine .inl ⟨hoom, ?_⟩
    rintro ⟨b, hb, hfree, hsize⟩
    have hfit := hnone b hb
    simp [fits, hfree, hsize] at hfit
  · obtain ⟨z, hz, hold, hnew⟩ := usedSegs_after_carve pre post hu hle
    refine .inr ⟨_, h', _, hok, I.kmalloc hn hn64 hu hle R,
      ⟨fun b hb => ?_, fun b hb => ?_⟩, ?_⟩
    · rw [hnew] at hb
      rw [hold]
      simp only [List.mem_append, List.mem_cons] at hb ⊢
      rcases hb with hpre | rfl | hpost
      · exact .inl (.inl hpre)
      · exact .inr (.inl rfl)
      · exact .inl (.inr hpost)
    · rw [hold] at hb
      rw [hnew]
      simp only [List.mem_append, List.mem_cons] at hb ⊢
      exact hb.imp_right .inr
    · rintro room ⟨b, hb, hfree, hsize⟩
      simp only [List.mem_append, List.mem_cons] at hb
      rcases hb with hpre | rfl | hpost
      · exact ⟨b, by simp [hpre], hfree, by omega⟩
      · -- the block itself is carved: the rest of it is free
        refine ⟨⟨b.start + sizeofBlock + totalNeeded n, b.size - totalNeeded n - sizeofBlock,
          false⟩, ?_, rfl, ?_⟩
        · unfold carve cut
          rw [if_neg (by dsimp only; unfold sizeofBlock at *; omega)]
          simp
        · dsimp only
          omega
      · exact ⟨b, by simp [hpost], hfree, by omega⟩

/-- The owner fills the bytes it asked for. -/
theorem WorldInv.fill (I : WorldInv A w l) (he : (p, n) ∈ w.live)
    (hsize : n ≤ maxRequest) (v : Nat) :
    WorldInv A ⟨{ w.heap with mem := Heap.fill w.heap.mem p n v }, w.live⟩ l := by
  obtain ⟨b, hb, -, hpay, hfit⟩ := I.block_of_live he hsize
  obtain ⟨pre, post, rfl⟩ := List.append_of_mem hb
  dsimp only at hpay hfit
  have hrep : ∀ k ≤ n, Represents A { w.heap with
      mem := Heap.fill w.heap.mem p k v } (pre ++ b :: post) := by
    intro k
    induction k with
    | zero => exact fun _ => I.rep
    | succ k ih => exact fun hk => (ih (by omega)).store (by omega) (by omega)
  exact ⟨hrep n (Nat.le_refl n), I.live, I.nodup, I.asked⟩

/-- A free that has happened. -/
theorem World.kfree_of_step {w' : World} (h : w.step (.kfree p) = some w') :
    Heap.kfree w.heap p = (.ret (), w'.heap) := by
  simp only [World.step] at h
  split at h
  · split at h
    · rename_i hok
      cases h
      exact hok
    · cases h
  · cases h

/-- What the block list determines. -/
theorem heapPrintStats_eq {s s' : HeapState} {l : List Seg} (R : Represents A s l)
    (R' : Represents A s' l) :
    heapPrintStats s' = heapPrintStats s := by
  unfold heapPrintStats
  rw [R.heapFreeBytes_eq, R'.heapFreeBytes_eq, R.blockList_eq, R'.blockList_eq]

end Allocations

/-! ## The test -/

section Test

variable {A : Arena} {w w' : World} {l l' : List Seg} {ps qs : List Nat}

/-- Freeing in any order what has been allocated since restores the block list. -/
theorem WorldInv.kfree_new (I : WorldInv A w l) (I' : WorldInv A w' l') (X : Extends l l' ps)
    (hlive : w'.pointers = ps ++ w.pointers) (hperm : qs.Perm ps) :
    ∃ w'', exec World.step w' (qs.map Call.kfree) = some w'' ∧ Represents A w''.heap l := by
  have hnodup := I'.nodup
  rw [hlive, List.nodup_append] at hnodup
  obtain ⟨hps, -, hapart⟩ := hnodup
  obtain ⟨w'', l'', hexec, I'', hused⟩ := I'.kfree_list (hperm.nodup_iff.mpr hps) fun p hp => by
    rw [hlive]
    exact List.mem_append_left _ (hperm.mem_iff.mp hp)
  refine ⟨w'', hexec, ?_⟩
  have hsame : ∀ b, b ∈ usedSegs l'' ↔ b ∈ usedSegs l := by
    intro b
    rw [hused]
    constructor
    · rintro ⟨hb, hnot⟩
      exact (X.new b hb).resolve_right fun hp => hnot (hperm.mem_iff.mpr hp)
    · intro hb
      refine ⟨X.old b hb, fun hp => ?_⟩
      exact hapart _ (hperm.mem_iff.mp hp) _ ((I.live _).mpr ⟨b, hb, rfl⟩) rfl
  rw [← I''.rep.list_unique I.rep hsame]
  exact I''.rep

/-- What the test needs, in one free block. -/
def selfTestRoom : Nat := [100, 4000, 50, 20000, 16].foldr
    (fun n room => totalNeeded n + 2 * sizeofBlock + room) 0

/-- The patterns are there, and nothing else has changed that the heap depends on. -/
theorem WorldInv.patterns (I : WorldInv A w l) (p1 p3 p5 : Nat) (h1 : (p1, 100) ∈ w.live)
    (h3 : (p3, 50) ∈ w.live) (h5 : (p5, 16) ∈ w.live) (h13 : p1 ≠ p3) (h15 : p1 ≠ p5)
    (h35 : p3 ≠ p5) :
    ∃ m, m = Heap.fill (Heap.fill (Heap.fill w.heap.mem p1 100 0xAA) p3 50 0xBB) p5 16 0xCC ∧
      WorldInv A ⟨{ w.heap with mem := m }, w.live⟩ l ∧ differs m p1 100 0xAA = false ∧
      differs m p3 50 0xBB = false ∧ differs m p5 16 0xCC = false := by
  have hsmall : ∀ n, n ≤ 100 → n ≤ maxRequest :=
    fun n hn => Nat.le_trans hn (by unfold maxRequest; omega)
  have I₁ := I.fill h1 (hsmall _ (by omega)) 0xAA
  have I₃ := I₁.fill h3 (hsmall _ (by omega)) 0xBB
  have I₅ := I₃.fill h5 (hsmall _ (by omega)) 0xCC
  have ap13 := I.apart_of_live h1 h3 (hsmall _ (by simp)) (hsmall _ (by simp)) h13.symm
  have ap15 := I.apart_of_live h1 h5 (hsmall _ (by simp)) (hsmall _ (by simp)) h15.symm
  have ap35 := I.apart_of_live h3 h5 (hsmall _ (by simp)) (hsmall _ (by simp)) h35.symm
  unfold Apart at ap13 ap15 ap35
  dsimp only at ap13 ap15 ap35
  refine ⟨_, rfl, I₅, differs_eq_false (by omega) fun y hlo hhi => ?_,
    differs_eq_false (by omega) fun y hlo hhi => ?_,
    differs_eq_false (by omega) fun y hlo hhi => fill_inside hlo hhi⟩
  · rw [fill_outside (by omega), fill_outside (by omega), fill_inside hlo hhi]
  · rw [fill_outside (by omega), fill_inside hlo hhi]

/-- **The self-test passes.**  From every heap that is reached, `heap_self_test` reports
no overlap and no leak, and the statistics, the list of headers and the free bytes are
at the end what they were at the beginning; or it panics for want of memory, and then
no free block had `selfTestRoom` bytes. -/
theorem heap_self_test_passes (h : World.Reachable A w) :
    (∃ stats during s', heapSelfTest w.heap = (.ret (
        [cString (ascii "[heap] self-test starting...\n")] ++ stats ++
        [cString (ascii "[heap] no overlap after alloc, OK\n")] ++ during ++
        [cString (ascii "[heap] after freeing everything: ")] ++ stats ++
        [cString (ascii "[heap] self-test PASSED (free bytes fully recovered)\n\n")]), s') ∧
      blockList s' = blockList w.heap ∧ heapFreeBytes s' = heapFreeBytes w.heap) ∨
    (heapSelfTest w.heap).1 = .panic .HEAP panicHeapOom ∧
      ∀ bs, blockList w.heap = some bs → ∀ b ∈ bs, b.free ≠ 0 → b.size < selfTestRoom := by
  obtain ⟨l, I⟩ := worldInv_of_reach h
  obtain ⟨stats, hstats⟩ : ∃ stats, heapPrintStats w.heap = some stats := by
    unfold heapPrintStats
    rw [I.rep.heapFreeBytes_eq, I.rep.blockList_eq]
    exact ⟨_, rfl⟩
  have hfree := I.rep.heapFreeBytes_eq
  -- a panic in one of the allocations
  have hpanic : ¬ Spare selfTestRoom l →
      ∀ bs, blockList w.heap = some bs → ∀ b ∈ bs, b.free ≠ 0 → b.size < selfTestRoom := by
    intro hnone bs hbs b hb hbfree
    rw [I.rep.blockList_eq] at hbs
    cases hbs
    obtain ⟨c, hc, -, hsize, hflag⟩ := mem_headersOf hb
    refine Nat.lt_of_not_le fun hroom => hnone ⟨c, hc, ?_, hsize ▸ hroom⟩
    cases hu : c.used
    · rfl
    · rw [hflag, hu] at hbfree
      exact absurd rfl hbfree
  have hend : ∀ s', heapSelfTest w.heap = (.panic .HEAP panicHeapOom, s') →
    ¬ Spare selfTestRoom l →
      (heapSelfTest w.heap).1 = .panic .HEAP panicHeapOom ∧
        ∀ bs, blockList w.heap = some bs → ∀ b ∈ bs, b.free ≠ 0 → b.size < selfTestRoom :=
    fun _ hrun hnone => ⟨by rw [hrun], hpanic hnone⟩
  rcases I.kmalloc_cases (n := 100) (by omega) (by omega)
    with ⟨hoom, hnone⟩ | ⟨p1, h1, l1, hok1, I1, X1, room1⟩
  · refine .inr (hend w.heap ?_ fun hroom => hnone (hroom.mono (by decide)))
    simp only [heapSelfTest, hstats, hfree, looped, andThen, hoom]
  rcases I1.kmalloc_cases (n := 4000) (by omega) (by omega)
    with ⟨hoom, hnone⟩ | ⟨p2, h2, l2, hok2, I2, X2, room2⟩
  · refine .inr (hend h1 ?_ fun hroom => hnone ((room1 _ hroom).mono (by decide)))
    simp only [heapSelfTest, hstats, hfree, looped, andThen, hok1, hoom]
  rcases I2.kmalloc_cases (n := 50) (by omega) (by omega)
    with ⟨hoom, hnone⟩ | ⟨p3, h3, l3, hok3, I3, X3, room3⟩
  · refine .inr (hend h2 ?_ fun hroom => hnone ((room2 _ (room1 _ hroom)).mono (by decide)))
    simp only [heapSelfTest, hstats, hfree, looped, andThen, hok1, hok2, hoom]
  rcases I3.kmalloc_cases (n := 20000) (by omega) (by omega)
    with ⟨hoom, hnone⟩ | ⟨p4, h4, l4, hok4, I4, X4, room4⟩
  · refine .inr (hend h3 ?_ fun hroom =>
      hnone ((room3 _ (room2 _ (room1 _ hroom))).mono (by decide)))
    simp only [heapSelfTest, hstats, hfree, looped, andThen, hok1, hok2, hok3, hoom]
  rcases I4.kmalloc_cases (n := 16) (by omega) (by omega)
    with ⟨hoom, hnone⟩ | ⟨p5, h5, l5, hok5, I5, X5, -⟩
  · refine .inr (hend h4 ?_ fun hroom =>
      hnone ((room4 _ (room3 _ (room2 _ (room1 _ hroom)))).mono (by decide)))
    simp only [heapSelfTest, hstats, hfree, looped, andThen, hok1, hok2, hok3, hok4, hoom]
  -- five live blocks
  have hnodup := I5.nodup
  simp only [World.pointers, List.map_cons, List.nodup_cons, List.mem_cons, not_or] at hnodup
  obtain ⟨⟨-, h53, -, h51, -⟩, -, ⟨-, h31, -⟩, -⟩ := hnodup
  obtain ⟨m, hm, I6, hd1, hd3, hd5⟩ :=
    I5.patterns p1 p3 p5 (by simp) (by simp) (by simp) (Ne.symm h31) (Ne.symm h51) (Ne.symm h53)
  -- freed again, in another order
  have hperm : [p3, p1, p4, p2, p5].Perm [p5, p4, p3, p2, p1] := by
    refine List.perm_iff_count.mpr fun x => ?_
    simp only [List.count_cons, List.count_nil]
    ac_rfl
  obtain ⟨w'', hexec, R⟩ :=
    I.kfree_new I6 ((((X1.trans X2).trans X3).trans X4).trans X5) rfl hperm
  simp only [List.map_cons, List.map_nil, exec] at hexec
  obtain ⟨f1, hf1, hexec⟩ := Option.bind_eq_some_iff.mp hexec
  obtain ⟨f2, hf2, hexec⟩ := Option.bind_eq_some_iff.mp hexec
  obtain ⟨f3, hf3, hexec⟩ := Option.bind_eq_some_iff.mp hexec
  obtain ⟨f4, hf4, hexec⟩ := Option.bind_eq_some_iff.mp hexec
  obtain ⟨f5, hf5, hexec⟩ := Option.bind_eq_some_iff.mp hexec
  cases hexec
  have hduring : ∃ during, heapPrintStats { h5 with mem := m } = some during := by
    unfold heapPrintStats
    rw [I6.rep.heapFreeBytes_eq, I6.rep.blockList_eq]
    exact ⟨_, rfl⟩
  obtain ⟨during, hduring⟩ := hduring
  have hafter : heapPrintStats w''.heap = some stats := (heapPrintStats_eq I.rep R).trans hstats
  have hsum := R.heapFreeBytes_eq
  have hk1 := World.kfree_of_step hf1
  have hk2 := World.kfree_of_step hf2
  have hk3 := World.kfree_of_step hf3
  have hk4 := World.kfree_of_step hf4
  have hk5 := World.kfree_of_step hf5
  dsimp only at hk1
  refine .inl ⟨stats, during, w''.heap, ?_, ?_, hsum.trans hfree.symm⟩
  · simp only [heapSelfTest, hstats, hfree, looped, andThen, hok1, hok2, hok3, hok4, hok5]
    rw [← hm]
    simp only [hd1, hd3, hd5, hduring, hk1, hk2, hk3, hk4, hk5, hsum, hafter]
    rfl
  · rw [R.blockList_eq, I.rep.blockList_eq]

/-- The kernel runs it on the heap that `heap_init` has left, and it passes. -/
theorem heap_self_test_passes_init :
    ∃ printed s', heapSelfTest (heapInit arenaAt2M fun _ => 0) = (.ret printed, s') ∧
      blockList s' = some [initialHeader arenaAt2M] := by
  have hinit : World.Initial arenaAt2M ⟨heapInit arenaAt2M fun _ => 0, []⟩ := ⟨_, rfl⟩
  have hblocks : blockList (heapInit arenaAt2M fun _ => 0) = some [initialHeader arenaAt2M] :=
    (heapInit_spec arenaAt2M fun _ => 0).blockList_eq
  rcases heap_self_test_passes (Reach.start hinit)
    with ⟨stats, during, s', hrun, hlist, -⟩ | ⟨-, hsmall⟩
  · exact ⟨_, s', hrun, hlist.trans hblocks⟩
  · have hlt := hsmall _ hblocks (initialHeader arenaAt2M) List.mem_cons_self (by decide)
    exact absurd hlt (by decide)

end Test

end NekaKernel.Heap
