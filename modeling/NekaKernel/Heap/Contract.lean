/-
  Heap/Contract.lean --- what a caller of `kmalloc` may rely on.

  Source: `heap.c`.

  The bytes of an allocation lie in its own block and meet nothing else, as long
  as the request survives `align16`.  For the last 15 values of `size_t` the sum
  `n + 15` wraps, `kmalloc` looks for a block of 4 bytes, finds one, and returns
  a pointer to no byte at all.
-/
import NekaKernel.Heap.WellFormed

set_option autoImplicit false

namespace NekaKernel.Heap

open NekaKernel.Foundation NekaKernel.Kernel

/-! ## The contract -/

/-- `[a, a + n)` and `[b, b + m)` have no byte in common. -/
def Apart (a n b m : Nat) : Prop := a + n ≤ b ∨ b + m ≤ a

/-- What the owner of the `n` bytes at `p` may rely on, with the block list `bs`. -/
structure Owns (A : Arena) (w : World) (bs : List BlockHeader) (p n : Nat) : Prop where
  arena : A.base ≤ p ∧ p + n ≤ A.top
  block : ∃ b ∈ bs, b.free = 0 ∧ b.addr + sizeofBlock + sizeofMagic = p ∧
    p + n ≤ b.addr + sizeofBlock + b.size
  live : ∀ e ∈ w.live, e.1 ≠ p → Apart p n e.1 e.2
  headers : ∀ b ∈ bs, Apart p n b.addr sizeofBlock
  magics : ∀ b ∈ bs, b.free = 0 → Apart p n (b.addr + sizeofBlock) sizeofMagic

/-- **The allocation contract**: no pointer is live twice, and every live allocation
has the bytes it asked for. -/
def Contract (A : Arena) (w : World) : Prop :=
  w.pointers.Nodup ∧ ∃ bs, blockList w.heap = some bs ∧ ∀ e ∈ w.live, Owns A w bs e.1 e.2

/-- The largest request that `align16` rounds up. -/
def maxRequest : Nat := 2 ^ 64 - 16

/-! ## Allocations and their blocks -/

section Blocks

variable {A : Arena} {w : World} {l : List Seg}

/-- The header of a segment of the list. -/
theorem header_of_mem {p n : Nat} {b : Seg} (hb : b ∈ l) :
    ∃ h ∈ headersOf p l n, h.addr = b.start ∧ h.size = b.size ∧
      h.free = if b.used then 0 else 1 := by
  induction l generalizing p with
  | nil => simp at hb
  | cons s r ih =>
    rcases List.mem_cons.mp hb with rfl | hb
    · exact ⟨_, List.mem_cons_self, rfl, rfl, rfl⟩
    · obtain ⟨h, hh, hfields⟩ := ih (p := s.start) hb
      exact ⟨h, List.mem_cons_of_mem _ hh, hfields⟩

/-- The block of a live allocation whose size `align16` rounded up holds all of
it. -/
theorem WorldInv.block_of_live (I : WorldInv A w l) {e : Nat × Nat} (he : e ∈ w.live)
    (hsize : e.2 ≤ maxRequest) :
    ∃ b ∈ l, b.used = true ∧ payload b = e.1 ∧ e.1 + e.2 ≤ b.start + sizeofBlock + b.size := by
  obtain ⟨b, hb, hpay⟩ := (I.live e.1).mp (List.mem_map_of_mem he)
  obtain ⟨hmem, hu⟩ := mem_usedSegs.mp hb
  have hneed : totalNeeded e.2 ≤ b.size := (I.asked e he).2.2 b hb hpay
  have hround : e.2 ≤ align16 e.2 := le_align16 hsize
  refine ⟨b, hmem, hu, hpay, ?_⟩
  rw [← hpay]
  unfold payload totalNeeded at *
  omega

/-- What lies in one block's payload meets no byte of another block. -/
theorem Represents.apart_payload {s : HeapState} (R : Represents A s l) {b c : Seg} (hb : b ∈ l)
    (hc : c ∈ l) (hne : b ≠ c) {n x m : Nat}
    (hn : payload b + n ≤ b.start + sizeofBlock + b.size)
    (hlo : c.start ≤ x) (hhi : x + m ≤ c.start + sizeofBlock + c.size) :
    Apart (payload b) n x m := by
  unfold Apart payload at *
  rcases R.tiles.apart_of_ne hb hc hne with h | h
  · exact Or.inl (by omega)
  · exact Or.inr (by omega)

/-- Two live allocations have no byte in common. -/
theorem WorldInv.apart_of_live (I : WorldInv A w l) {e e' : Nat × Nat} (he : e ∈ w.live)
    (he' : e' ∈ w.live) (hsize : e.2 ≤ maxRequest) (hsize' : e'.2 ≤ maxRequest)
    (hne : e'.1 ≠ e.1) : Apart e.1 e.2 e'.1 e'.2 := by
  obtain ⟨b, hb, _, hpay, hfit⟩ := I.block_of_live he hsize
  obtain ⟨c, hc, _, hpay', hfit'⟩ := I.block_of_live he' hsize'
  have hbc : b ≠ c := by
    intro heq
    exact hne (by rw [← hpay', ← hpay, heq])
  rw [← hpay] at hfit ⊢
  refine I.rep.apart_payload hb hc hbc hfit ?_ hfit'
  unfold payload at hpay'
  omega

theorem WorldInv.owns (I : WorldInv A w l) (hall : ∀ e ∈ w.live, e.2 ≤ maxRequest)
    {e : Nat × Nat} (he : e ∈ w.live) : Owns A w (headersOf 0 l 0) e.1 e.2 := by
  obtain ⟨b, hb, hu, hpay, hfit⟩ := I.block_of_live he (hall e he)
  have hbounds := I.rep.tiles.mem_bounds hb
  rw [← hpay] at hfit ⊢
  -- the header and the magic word of a block lie in front of its own payload
  have hfront : ∀ c ∈ l, ∀ x m, c.start ≤ x → x + m ≤ payload c →
      Apart (payload b) e.2 x m := by
    intro c hc x m hlo hhi
    by_cases hbc : b = c
    · subst hbc
      exact Or.inr hhi
    · refine I.rep.apart_payload hb hc hbc hfit hlo ?_
      have := I.rep.roomy c hc
      unfold payload at hhi
      omega
  refine ⟨?_, ?_, ?_, ?_, ?_⟩
  · unfold payload at hfit ⊢
    exact ⟨by omega, by omega⟩
  · obtain ⟨h, hh, haddr, hsize, hfree⟩ := header_of_mem (p := 0) (n := 0) hb
    refine ⟨h, hh, by simp [hfree, hu], ?_, ?_⟩
    · rw [haddr]
      rfl
    · rw [haddr, hsize]
      exact hfit
  · intro e' he' hne
    rw [hpay] at hne ⊢
    exact I.apart_of_live he he' (hall e he) (hall e' he') hne
  · intro h hh
    obtain ⟨c, hc, haddr, _, _⟩ := mem_headersOf hh
    rw [haddr]
    exact hfront c hc _ _ (Nat.le_refl _) (Nat.le_add_right _ _)
  · intro h hh _
    obtain ⟨c, hc, haddr, _, _⟩ := mem_headersOf hh
    rw [haddr]
    exact hfront c hc _ _ (Nat.le_add_right _ _) (Nat.le_refl _)

/-- No request above `maxRequest` fits into the address space behind a pointer. -/
theorem Owns.le_maxRequest {bs : List BlockHeader} {p n : Nat} (h : Owns A w bs p n) :
    n ≤ maxRequest := by
  obtain ⟨b, _, _, hp, _⟩ := h.block
  have hend := h.arena.2
  have hrange := A.in_range
  simp only [Arena.top, sizeofBlock] at *
  unfold maxRequest
  omega

end Blocks

/-! ## Every run -/

/-- The contract holds exactly when every live request is one that `align16`
rounds up. -/
theorem contract_iff_of_reach {A : Arena} {w : World} (h : World.Reachable A w) :
    Contract A w ↔ ∀ e ∈ w.live, e.2 ≤ maxRequest := by
  obtain ⟨l, I⟩ := worldInv_of_reach h
  constructor
  · rintro ⟨-, bs, -, howns⟩ e he
    exact (howns e he).le_maxRequest
  · intro hall
    exact ⟨I.nodup, _, I.rep.blockList_eq, fun e he => I.owns hall he⟩

/-- A call that asks `kmalloc` for no more than `maxRequest`. -/
def Call.Modest (c : Call) : Prop := ∀ n, c = .kmalloc n → n ≤ maxRequest

/-- Modest calls keep the live requests modest. -/
theorem live_le_step {w w' : World} {c : Call} (hlive : ∀ e ∈ w.live, e.2 ≤ maxRequest)
    (hc : c.Modest) (hstep : w.step c = some w') : ∀ e ∈ w'.live, e.2 ≤ maxRequest := by
  cases c with
  | kmalloc n =>
    have hn : n ≤ maxRequest := hc n rfl
    simp only [World.step] at hstep
    split at hstep
    · split at hstep
      · simp only [Option.some.injEq] at hstep
        subst hstep
        dsimp only
        split
        · exact hlive
        · intro e he
          rcases List.mem_cons.mp he with rfl | he
          · exact hn
          · exact hlive e he
      · simp only [Option.some.injEq] at hstep
        subst hstep
        exact hlive
      · simp at hstep
    · simp at hstep
  | kfree ptr =>
    simp only [World.step] at hstep
    split at hstep
    · split at hstep
      · simp only [Option.some.injEq] at hstep
        subst hstep
        intro e he
        exact hlive e (List.mem_filter.mp he).1
      · simp at hstep
    · simp at hstep
  | store ptr addr byte =>
    simp only [World.step] at hstep
    split at hstep
    · simp only [Option.some.injEq] at hstep
      subst hstep
      exact hlive
    · simp at hstep

/-- **Allocation contract.**  In every run whose requests stay at or below
`2 ^ 64 - 16` every live allocation owns its bytes; and in any run the contract
fails exactly while a larger request is live. -/
theorem kmalloc_contract (A : Arena) :
    (∀ w, Reach (World.Initial A) World.step (fun _ c => c.Modest) w → Contract A w) ∧
    ∀ w, World.Reachable A w → (Contract A w ↔ ∀ e ∈ w.live, e.2 ≤ 2 ^ 64 - 16) := by
  refine ⟨?_, fun w h => contract_iff_of_reach h⟩
  intro w h
  have hboth : World.Reachable A w ∧ ∀ e ∈ w.live, e.2 ≤ maxRequest := by
    refine h.invariant (P := fun w => World.Reachable A w ∧
      ∀ e ∈ w.live, e.2 ≤ maxRequest) ?_ ?_
    · rintro w ⟨m, rfl⟩
      exact ⟨Reach.start ⟨m, rfl⟩, by simp⟩
    · rintro w c w' ⟨hreach, hlive⟩ hc hstep
      exact ⟨Reach.step hreach trivial hstep, live_le_step hlive hc hstep⟩
  exact (contract_iff_of_reach hboth.1).mpr hboth.2

/-- 100 and 200 bytes on a fresh heap, each with its own. -/
theorem kmalloc_contract_two_allocs :
    ∃ w, w.live = [(0x2000B8, 200), (0x200024, 100)] ∧ Contract arenaAt2M w := by
  have hrun : (exec World.step zeroWorld [.kmalloc 100, .kmalloc 200]).map World.live =
      some [(0x2000B8, 200), (0x200024, 100)] := by decide +kernel
  obtain ⟨w, hw, hlive⟩ := Option.map_eq_some_iff.mp hrun
  refine ⟨w, hlive, ((kmalloc_contract arenaAt2M).2 w (reachable_of_exec hw)).mpr ?_⟩
  rw [hlive]
  decide

/-- `kmalloc(SIZE_MAX)` on a fresh heap succeeds, and its owner has nothing. -/
theorem kmalloc_size_max :
    ∃ w, w.live = [(0x200024, 2 ^ 64 - 1)] ∧ World.Reachable arenaAt2M w ∧
      ¬ Contract arenaAt2M w := by
  obtain ⟨h', hreach⟩ :=
    exists_first_alloc arenaAt2M (n := 2 ^ 64 - 1) (by decide) (by decide) (by decide)
  refine ⟨_, rfl, hreach, ?_⟩
  rw [contract_iff_of_reach hreach]
  simp [maxRequest]

end NekaKernel.Heap
