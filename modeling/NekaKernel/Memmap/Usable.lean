/-
  Memmap/Usable.lean --- whether frames are memory that was reported usable.

  Source: `memmap.c`.

  The loop of `memmap_alloc_frame` rounds the start of a region up to a page and
  stops when the address reaches the region's end.  It never asks whether a whole
  page is left, so a region that does not end on a page boundary gives a last
  frame that reaches past it.  Near `2 ^ 64` the rounding or the cursor wraps, and
  the walk gets to pages no region has.
-/
import NekaKernel.Memmap.Enumerate

set_option autoImplicit false

namespace NekaKernel.Memmap

open NekaKernel.Foundation NekaKernel.Kernel

/-- The page at `p` lies in the region as a whole. -/
def Region.Covers (r : Region) (p : Nat) : Prop := r.base ≤ p ∧ p + 4096 ≤ r.base + r.length

instance (r : Region) (p : Nat) : Decidable (r.Covers p) := inferInstanceAs (Decidable (_ ∧ _))

/-- The page that holds the end of the region. -/
def Region.endPage (r : Region) : Nat := (r.base + r.length) / 4096 * 4096

/-- The region does not leave a part of a page over: it fits below `2 ^ 64`, and
it ends on a page boundary, or the page of its end is not one the walk takes from
it, or another region has that page as a whole. -/
def WholePages (T : RegionTable) (R : Reserved) (r : Region) : Prop :=
  r.base + r.length + 0xFFF < 2 ^ 64 ∧
    ((r.base + r.length) % 4096 = 0 ∨ r.endPage < r.base ∨ r.endPage < 0x100000 ∨
      (r.endPage < R.hi ∧ R.lo < r.endPage + 4096) ∨ ∃ r' ∈ T.entries, r'.Covers r.endPage)

section Usable

variable {T : RegionTable} {R : Reserved} {r : Region} {p : Nat}

/-- What is returned is a frame, and every frame is returned. -/
theorem returned_iff {m : MapState} (hfit : ∀ r ∈ m.table.entries, r.Fits) :
    (∃ n, .ret p ∈ memmapAllocFrames n (memmapActivate m R.lo R.hi)) ↔
      p ∈ frames m.table R := by
  have hlast : ∀ q ∈ frames m.table R, q < lastPage := fun q hq => lt_lastPage hfit hq
  have hcalls := fun n => memmapAllocFrames_eq hlast n (toCome_activate m R)
  constructor
  · rintro ⟨n, hmem⟩
    rw [hcalls] at hmem
    have hmem := List.mem_of_mem_take hmem
    simpa using hmem
  · intro hp
    refine ⟨(frames m.table R).length, ?_⟩
    rw [hcalls, List.take_append_of_le_length (by simp), List.take_of_length_le (by simp)]
    exact List.mem_map_of_mem hp

/-- A region that does not fit has the last page. -/
theorem lastPage_mem (hsum : r.base + r.length < 2 ^ 64) (h : ¬ r.Fits) :
    lastPage ∈ R.regionFrames r := by
  have hmod := r.baseAligned_mod
  have hlt := r.baseAligned_lt
  have hhi := R.hi_le
  unfold Region.Fits at h
  rw [mem_regionFrames, usable_iff, Region.regionEnd_eq hsum]
  unfold lastPage at hhi ⊢
  refine ⟨⟨?_, ?_, ?_⟩, ?_, ?_⟩ <;> omega

/-- A frame of a region that fits lies in it as a whole or is the page of its
end. -/
theorem covers_or_endPage (h : r.Fits) (hp : p ∈ R.regionFrames r) :
    r.Covers p ∨ (r.base + r.length) % 4096 ≠ 0 ∧ p = r.endPage := by
  obtain ⟨hmod, ⟨hle, hlt⟩, _⟩ := (mem_regionFrames_of_fits h).mp hp
  unfold Region.Covers Region.endPage
  omega

/-- The page of the end is a frame unless the region has none of it or the walk
jumps over it. -/
theorem endPage_mem (h : r.Fits) (hodd : (r.base + r.length) % 4096 ≠ 0)
    (hbase : r.base ≤ r.endPage) (hhigh : 0x100000 ≤ r.endPage)
    (hfree : ¬ (r.endPage < R.hi ∧ R.lo < r.endPage + 4096)) :
    r.endPage ∈ R.regionFrames r := by
  have hmod : r.endPage % 4096 = 0 := Nat.mul_mod_left _ _
  refine (mem_regionFrames_of_fits h).mpr ⟨hmod, ⟨hbase, ?_⟩, ?_⟩
  · unfold Region.endPage
    omega
  · exact (usable_iff_disjoint hmod).mp (usable_iff.mpr ⟨hhigh, hfree⟩)

/-- With a region that does not fit, some call returns a page no region has. -/
theorem fits_of_covered {m : MapState}
    (hsum : ∀ r ∈ m.table.entries, r.base + r.length < 2 ^ 64)
    (hcover : ∀ n p, .ret p ∈ memmapAllocFrames n (memmapActivate m R.lo R.hi) →
      ∃ r ∈ m.table.entries, r.Covers p) : ∀ r ∈ m.table.entries, r.Fits := by
  intro r hr
  by_contra hbad
  have hmem : lastPage ∈ frames m.table R :=
    mem_frames.mpr ⟨r, hr, lastPage_mem (hsum r hr) hbad⟩
  obtain ⟨n, q, hq, hlast⟩ := exists_call (toCome_activate m R) hmem
  obtain ⟨r', hr', _, hend⟩ := hcover n q hq
  have hsum' := hsum r' hr'
  unfold lastPage at hlast
  omega

end Usable

/-- **Usable frames.**  Over regions whose ends do not overflow, every frame that
`memmap_alloc_frame` ever returns lies in a region as a whole exactly when no
region leaves a part of a page over. -/
theorem frames_usable_iff (m : MapState) (R : Reserved)
    (hsum : ∀ r ∈ m.table.entries, r.base + r.length < 2 ^ 64) :
    (∀ n p, .ret p ∈ memmapAllocFrames n (memmapActivate m R.lo R.hi) →
      ∃ r ∈ m.table.entries, r.base ≤ p ∧ p + 4096 ≤ r.base + r.length) ↔
    ∀ r ∈ m.table.entries, WholePages m.table R r := by
  constructor
  · intro hcover r hr
    have hfit := fits_of_covered hsum hcover
    refine ⟨hfit r hr, ?_⟩
    by_contra hleft
    simp only [not_or] at hleft
    obtain ⟨hodd, hbase, hhigh, hfree, hother⟩ := hleft
    have hmem : r.endPage ∈ frames m.table R := by
      refine mem_frames.mpr ⟨r, hr, endPage_mem (hfit r hr) hodd ?_ ?_ hfree⟩
      · exact Nat.le_of_not_lt hbase
      · exact Nat.le_of_not_lt hhigh
    obtain ⟨n, hn⟩ := (returned_iff hfit).mpr hmem
    exact hother (hcover n r.endPage hn)
  · intro hwhole n p hp
    have hfit : ∀ r ∈ m.table.entries, r.Fits := fun r hr => (hwhole r hr).1
    obtain ⟨r, hr, hmem⟩ := mem_frames.mp ((returned_iff hfit).mp ⟨n, hp⟩)
    rcases covers_or_endPage (hfit r hr) hmem with hin | ⟨hodd, rfl⟩
    · exact ⟨r, hr, hin⟩
    · -- the page of the end was taken, so only another region can excuse it
      obtain ⟨hmod, ⟨hbase, _⟩, hrest⟩ := (mem_regionFrames_of_fits (hfit r hr)).mp hmem
      obtain ⟨hhigh, hfree⟩ := usable_iff.mp ((usable_iff_disjoint hmod).mpr hrest)
      rcases (hwhole r hr).2 with h | h | h | h | h
      · exact absurd h hodd
      · exact absurd hbase (Nat.not_le_of_lt h)
      · exact absurd hhigh (Nat.not_le_of_lt h)
      · exact absurd h hfree
      · exact h

/-- Two regions of whole pages, the first of them low. -/
def wholeRegions : RegionTable :=
  ⟨[⟨0x1000, 0x9E000, by decide, by decide⟩, ⟨0x180000, 0x5000, by decide, by decide⟩],
    by decide⟩

theorem frames_usable_whole :
    (∀ r ∈ wholeRegions.entries, r.base + r.length < 2 ^ 64) ∧
      ∀ n p, .ret p ∈ memmapAllocFrames n
        (memmapActivate (.boot wholeRegions) imageAt1M.lo imageAt1M.hi) →
        ∃ r ∈ wholeRegions.entries, r.base ≤ p ∧ p + 4096 ≤ r.base + r.length := by
  have hsum : ∀ r ∈ wholeRegions.entries, r.base + r.length < 2 ^ 64 := by decide
  refine ⟨hsum, (frames_usable_iff (.boot wholeRegions) imageAt1M hsum).mpr ?_⟩
  intro r hr
  refine ⟨?_, Or.inl ?_⟩
  · revert r
    decide
  · revert r
    decide

/-- The last frame of a region that ends inside a page reaches past it. -/
theorem page_past_end_is_returned :
    (∀ r ∈ twoRegions.entries, r.base + r.length < 2 ^ 64) ∧
      .ret 0x106000 ∈ memmapAllocFrames 4
        (memmapActivate (.boot twoRegions) imageAt1M.lo imageAt1M.hi) ∧
      ¬ ∃ r ∈ twoRegions.entries, r.base ≤ 0x106000 ∧ 0x106000 + 4096 ≤ r.base + r.length := by
  refine ⟨by decide, by decide +kernel, by decide⟩

end NekaKernel.Memmap
