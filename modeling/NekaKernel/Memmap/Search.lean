/-
  Memmap/Search.lean --- the search for a frame ends.

  Source: `memmap_alloc_frame` in `memmap.c`.

  Here the regions, the reserved range and the cursor have any values a `uint64_t`
  can have: bases and lengths whose sums wrap, a range that is not page-aligned, an
  offset that points behind its region.  An iteration may lower the offset, but in one
  region `addr` goes up: over the first megabyte, to the end of the reserved range, or
  page by page through a reserved range that lies below the base, where the sum wrapped.
-/
import NekaKernel.Memmap.Regions

set_option autoImplicit false

namespace NekaKernel.Memmap

open NekaKernel.Kernel

/-- `addr`, as one iteration computes it in region `r`. -/
def MapState.addrIn (m : MapState) (r : Region) : Nat := add64 r.baseAligned m.curOffset

section Step

variable {m m' : MapState} {r : Region}

/-- The offset that brings the cursor to `a`. -/
theorem add64_sub64 {a b : Nat} (hb : b ≤ a) (ha : a < 2 ^ 64) : add64 b (sub64 a b) = a := by
  rw [sub64_of_le hb ha, add64_of_lt] <;> omega

/-- What an iteration that does not end the search does to the cursor. -/
theorem allocStep_again (hend : m.reserveEnd < 2 ^ 64) (h : allocStep m = .again m') :
    m'.table = m.table ∧ m'.reserveEnd = m.reserveEnd ∧
    ∃ r, m.table.entries[m.curRegion]? = some r ∧
      (m'.curRegion = m.curRegion + 1 ∨
        m'.curRegion = m.curRegion ∧
          (m.addrIn r < 0x100000 ∧ 0x100000 ≤ m'.addrIn r ∨
            0x100000 ≤ m.addrIn r ∧ m.addrIn r < m.reserveEnd ∧
              (m'.addrIn r = m.reserveEnd ∨ m'.addrIn r = m.addrIn r + 4096))) := by
  unfold allocStep at h
  split at h
  · cases h
  · rename_i r hr
    have hbase := r.baseAligned_lt
    have hmod := r.baseAligned_mod
    simp only at h
    split at h
    · cases h
      exact ⟨rfl, rfl, r, hr, Or.inl rfl⟩
    · split at h
      · rename_i hlow
        cases h
        refine ⟨rfl, rfl, r, hr, Or.inr ⟨rfl, Or.inl ⟨hlow, ?_⟩⟩⟩
        unfold MapState.addrIn
        dsimp only
        split
        · rename_i hbelow
          exact Nat.le_of_eq (add64_sub64 (Nat.le_of_lt hbelow) (by decide)).symm
        · rename_i hhigh
          rw [add64_of_lt hbase]
          exact Nat.le_of_not_lt hhigh
      · rename_i hhigh
        split at h
        · rename_i hreserved
          cases h
          refine ⟨rfl, rfl, r, hr, Or.inr
            ⟨rfl, Or.inr ⟨Nat.le_of_not_lt hhigh, hreserved.1, ?_⟩⟩⟩
          unfold MapState.addrIn
          dsimp only
          split
          · rename_i hbelow
            rw [add64_sub64 (Nat.le_of_lt hbelow) hend]
            exact Or.inl rfl
          · -- the sum wrapped, and the page behind `addr` is still below the base
            rename_i hwrapped
            right
            have haddr := hreserved.1
            unfold add64 at haddr ⊢
            omega
        · cases h

/-- The iterations that are left in a region, where the cursor stands at `addr`. -/
def iterationsAt (reserveEnd addr : Nat) : Nat :=
  if addr < 0x100000 then 2 ^ 52 + 2 else (reserveEnd - addr + 4095) / 4096

theorem iterationsAt_le {reserveEnd : Nat} (hend : reserveEnd < 2 ^ 64) (addr : Nat) :
    iterationsAt reserveEnd addr ≤ 2 ^ 52 + 2 := by
  unfold iterationsAt
  split <;> omega

/-- The iterations that are left at most. -/
def MapState.iterations (m : MapState) : Nat :=
  (m.table.entries.length - m.curRegion) * (2 ^ 52 + 3) +
    match m.table.entries[m.curRegion]? with
    | some r => iterationsAt m.reserveEnd (m.addrIn r)
    | none => 0

theorem iterations_le (hend : m.reserveEnd < 2 ^ 64) :
    m.iterations ≤ (m.table.entries.length - m.curRegion) * (2 ^ 52 + 3) + (2 ^ 52 + 2) := by
  unfold MapState.iterations
  split
  · rename_i r _
    have hle := iterationsAt_le hend (m.addrIn r)
    omega
  · omega

theorem iterations_lt_loopFuel (hend : m.reserveEnd < 2 ^ 64) : m.iterations < loopFuel := by
  have hbounded : m.table.entries.length ≤ 64 := m.table.bounded
  have hle := iterations_le hend
  unfold loopFuel
  omega

theorem iterations_some (hr : m.table.entries[m.curRegion]? = some r) :
    m.iterations = (m.table.entries.length - m.curRegion) * (2 ^ 52 + 3) +
      iterationsAt m.reserveEnd (m.addrIn r) := by
  unfold MapState.iterations
  rw [hr]

/-- Every iteration uses one up. -/
theorem iterations_again (hend : m.reserveEnd < 2 ^ 64) (h : allocStep m = .again m') :
    m'.iterations < m.iterations := by
  obtain ⟨htable, hreserve, r, hr, hnext | ⟨hsame, hmove⟩⟩ := allocStep_again hend h
  · have hle := iterations_le (hreserve ▸ hend)
    obtain ⟨hin, -⟩ := List.getElem?_eq_some_iff.mp hr
    rw [htable, hnext] at hle
    rw [iterations_some hr]
    omega
  · rw [iterations_some hr, iterations_some (by rw [htable, hsame, hr]), htable,
      hsame, hreserve]
    refine Nat.add_lt_add_left ?_ _
    unfold iterationsAt
    rcases hmove with ⟨hlow, hhigh⟩ | ⟨hhigh, hbelow, hjump | hwalk⟩
    · rw [if_pos hlow, if_neg (Nat.not_lt_of_le hhigh)]
      omega
    · rw [if_neg (Nat.not_lt_of_le hhigh), hjump, if_neg (by omega)]
      omega
    · rw [if_neg (Nat.not_lt_of_le hhigh), hwalk, if_neg (by omega)]
      omega

end Step

/-- The search has ended: with a frame, or behind the last region. -/
def SearchEnds (result : Exit Nat × MapState) : Prop :=
  (∃ addr, result.1 = .ret addr) ∨
    result.1 = .panic .MEMMAP panicMemmapOom ∧
    result.2.table.entries.length ≤ result.2.curRegion

theorem allocLoop_ends : ∀ {fuel : Nat} {m : MapState}, m.reserveEnd < 2 ^ 64 →
    m.iterations < fuel →
    SearchEnds (allocLoop fuel m) := by
  intro fuel
  induction fuel with
  | zero =>
    intro m _ hfuel
    exact absurd hfuel (Nat.not_lt_zero _)
  | succ fuel ih =>
    intro m hend hfuel
    rw [allocLoop]
    split
    · rename_i m' hstep
      have hless := iterations_again hend hstep
      have hreserve := (allocStep_again hend hstep).2.1
      exact ih (hreserve ▸ hend) (by omega)
    · exact Or.inl ⟨_, rfl⟩
    · rename_i hstep
      refine Or.inr ⟨rfl, ?_⟩
      unfold allocStep at hstep
      split at hstep
      · rename_i hnone
        exact List.getElem?_eq_none_iff.mp hnone
      · simp only at hstep
        split at hstep
        · cases hstep
        · split at hstep
          · cases hstep
          · split at hstep <;> cases hstep

/-- **The search for a frame ends.**  It does for every table of regions, every reserved
range and every cursor. -/
theorem memmap_alloc_frame_ends {m : MapState} (hend : m.reserveEnd < 2 ^ 64) :
    SearchEnds (memmapAllocFrame m) :=
  allocLoop_ends hend (iterations_lt_loopFuel hend)

/-- A cursor that an offset near `2 ^ 64` puts into the reserved range, below the base of
its region. -/
theorem memmap_alloc_frame_ends_wrapped :
    SearchEnds (memmapAllocFrame ⟨⟨[⟨2 ^ 31, 2 ^ 63, by decide, by decide⟩], by decide⟩, true,
      0x100000, 0x103001, 0, 2 ^ 64 - 2 ^ 31 + 0x100000⟩) :=
  memmap_alloc_frame_ends (by decide)

end NekaKernel.Memmap
