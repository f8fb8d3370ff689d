/-
  Heap/FirstFit.lean --- `kmalloc` fails only when nothing is long enough.

  Source: `heap.c`.

  `find_free_block` sees single free blocks.  Since `kfree` leaves no two of them side
  by side, they are the gaps between the used blocks, whatever was allocated and freed
  before; so the search misses no room that is there, and takes the lowest.
-/
import NekaKernel.Foundation.Gaps
import NekaKernel.Heap.Contract

set_option autoImplicit false

namespace NekaKernel.Heap

open NekaKernel.Foundation NekaKernel.Kernel

/-- The header or the payload of a used block is at `x`. -/
def Covered (bs : List BlockHeader) (x : Nat) : Prop :=
  ∃ b ∈ bs, b.free = 0 ∧ b.addr ≤ x ∧ x < b.addr + sizeofBlock + b.size

/-- `[lo, hi)` is a maximal run of arena bytes that no used block covers. -/
def FreeRun (A : Arena) (bs : List BlockHeader) (lo hi : Nat) : Prop :=
  Gap (Covered bs) A.base A.top lo hi

/-- The bytes that an allocation of `n` takes up: the header, the request rounded up and
the magic word. -/
def bytesNeeded (n : Nat) : Nat := sizeofBlock + align16 n + sizeofMagic

section Runs

variable {A : Arena} {s : HeapState} {l : List Seg} {lo hi n : Nat}

theorem covered_headersOf {x : Nat} : Covered (headersOf 0 l 0) x ↔ UsedAt sizeofBlock l x := by
  constructor
  · rintro ⟨b, hb, hfree, hlo, hhi⟩
    obtain ⟨c, hc, haddr, hsize, hflag⟩ := mem_headersOf hb
    have hused : c.used = true := by
      by_contra hne
      simp [hne, hfree] at hflag
    rw [haddr] at hlo hhi
    rw [hsize] at hhi
    exact ⟨c, mem_usedSegs.mpr ⟨hc, hused⟩, hlo, hhi⟩
  · rintro ⟨c, hc, hlo, hhi⟩
    obtain ⟨hc, hused⟩ := mem_usedSegs.mp hc
    obtain ⟨b, hb, haddr, hsize, hflag⟩ := header_of_mem (p := 0) (n := 0) hc
    refine ⟨b, hb, by simp [hflag, hused], ?_, ?_⟩
    · rw [haddr]
      exact hlo
    · rw [haddr, hsize]
      exact hhi

/-- The runs are the free blocks. -/
theorem Represents.freeRun_iff (R : Represents A s l) :
    FreeRun A (headersOf 0 l 0) lo hi ↔
      ∃ b ∈ l, b.used = false ∧ lo = b.start ∧ hi = b.start + sizeofBlock + b.size := by
  have hcovered : Covered (headersOf 0 l 0) = UsedAt sizeofBlock l :=
    funext fun x => propext covered_headersOf
  unfold FreeRun
  rw [hcovered]
  exact R.tiles.gap_iff (by decide) R.coalesced

/-- A block that is not found is one that is too short. -/
theorem length_lt_of_not_fits {b : Seg} (hfree : b.used = false)
    (hfit : fits (totalNeeded n) b = false) :
    b.start + sizeofBlock + b.size - b.start < bytesNeeded n := by
  have hshort : b.size < totalNeeded n := by
    simpa [fits, hfree] using hfit
  unfold bytesNeeded
  unfold totalNeeded at hshort
  omega

/-- The run of a block that is found is long enough. -/
theorem bytesNeeded_le {b : Seg} (hle : totalNeeded n ≤ b.size) :
    bytesNeeded n ≤ b.start + sizeofBlock + b.size - b.start := by
  unfold bytesNeeded
  unfold totalNeeded at hle
  omega

/-- The block that is found begins no higher than any other that is long enough. -/
theorem first_le {pre post : List Seg} {b c : Seg}
    (t : Tiles sizeofBlock A.base (pre ++ b :: post) A.top)
    (hnone : ∀ a ∈ pre, fits (totalNeeded n) a = false) (hc : c ∈ pre ++ b :: post)
    (hfree : c.used = false)
    (hlong : bytesNeeded n ≤ c.start + sizeofBlock + c.size - c.start) : b.start ≤ c.start := by
  rcases List.mem_append.mp hc with hpre | hrest
  · exact absurd (length_lt_of_not_fits hfree (hnone c hpre)) (Nat.not_lt_of_le hlong)
  · rcases List.mem_cons.mp hrest with rfl | hpost
    · exact Nat.le_refl _
    · have habove := ((tiles_mid t).2.mem_bounds hpost).1
      omega

/-- The block that is carved begins where the free one did. -/
theorem Represents.block_at_carved {pre post : List Seg} {b : Seg} {wanted : Nat}
    (R : Represents A s (pre ++ (carve b wanted ++ post))) :
    ∃ bs, blockList s = some bs ∧ ∃ h ∈ bs, h.addr = b.start ∧ h.free = 0 := by
  obtain ⟨f, r, -, hstart, hcarve⟩ := cut_head b wanted
  have hmem : { f with used := true } ∈ pre ++ (carve b wanted ++ post) := by
    rw [hcarve]
    simp
  obtain ⟨h, hh, haddr, -, hflag⟩ := header_of_mem (p := 0) (n := 0) hmem
  exact ⟨_, R.blockList_eq, h, hh, haddr.trans hstart, hflag⟩

end Runs

/-- **No false out-of-memory.**  In every world that a run reaches, `kmalloc` panics if
and only if every maximal run without a used block is too short; else the block is put
at the start of the lowest that is long enough. -/
theorem kmalloc_first_fit (A : Arena) (w : World) (h : World.Reachable A w) :
    ∃ bs, blockList w.heap = some bs ∧ ∀ n, 1 ≤ n → n ≤ 2 ^ 64 - 16 →
      ((kmalloc w.heap n = (.panic .HEAP panicHeapOom, w.heap) ↔
        ∀ lo hi, FreeRun A bs lo hi → hi - lo < bytesNeeded n) ∧
      ((∃ lo hi, FreeRun A bs lo hi ∧ bytesNeeded n ≤ hi - lo) →
        ∃ lo hi heap', FreeRun A bs lo hi ∧ bytesNeeded n ≤ hi - lo ∧
          (∀ lo' hi', FreeRun A bs lo' hi' → bytesNeeded n ≤ hi' - lo' → lo ≤ lo') ∧
          kmalloc w.heap n = (.ret (lo + sizeofBlock + sizeofMagic), heap') ∧
          ∃ bs', blockList heap' = some bs' ∧ ∃ b ∈ bs', b.addr = lo ∧ b.free = 0)) := by
  obtain ⟨l, I⟩ := worldInv_of_reach h
  refine ⟨_, I.rep.blockList_eq, fun n hpos _ => ?_⟩
  simp only [I.rep.freeRun_iff]
  rcases kmalloc_spec I.rep (Nat.ne_of_gt hpos)
    with ⟨hnone, hoom⟩ | ⟨pre, b, post, s', rfl, hu, hle, hbefore, hok, R⟩
  · have hshort : ∀ lo hi, (∃ b ∈ l, b.used = false ∧ lo = b.start ∧
      hi = b.start + sizeofBlock + b.size) →
        hi - lo < bytesNeeded n := by
      rintro lo hi ⟨b, hb, hfree, rfl, rfl⟩
      exact length_lt_of_not_fits hfree (hnone b hb)
    refine ⟨iff_of_true hoom hshort, ?_⟩
    rintro ⟨lo, hi, hrun, hlong⟩
    exact absurd (hshort lo hi hrun) (Nat.not_lt_of_le hlong)
  · have hlong := bytesNeeded_le (b := b) hle
    have hrun : ∃ c ∈ pre ++ b :: post, c.used = false ∧ b.start = c.start ∧
        b.start + sizeofBlock + b.size = c.start + sizeofBlock + c.size :=
          ⟨b, by simp, hu, rfl, rfl⟩
    refine ⟨iff_of_false ?_ ?_, fun _ => ⟨_, _, s', hrun, hlong, ?_, hok, R.block_at_carved⟩⟩
    · rw [hok]
      exact nofun
    · intro hshort
      exact absurd (hshort _ _ hrun) (Nat.not_lt_of_le hlong)
    · rintro lo' hi' ⟨c, hc, hfree, rfl, rfl⟩ hlong'
      exact first_le I.rep.tiles hbefore hc hfree hlong'

/-- Behind a block of 100 bytes, one of 200 goes to the start of what is left. -/
theorem kmalloc_first_fit_second :
    ∃ w, w.live = [(0x200024, 100)] ∧ World.Reachable arenaAt2M w ∧
      ∃ bs, blockList w.heap = some bs ∧
        (kmalloc w.heap 200 = (.panic .HEAP panicHeapOom, w.heap) ↔
        ∀ lo hi, FreeRun arenaAt2M bs lo hi → hi - lo < bytesNeeded 200) := by
  obtain ⟨h', hreach⟩ := exists_first_alloc arenaAt2M (n := 100) (by decide)
    (by decide) (by decide)
  obtain ⟨bs, hlist, hfit⟩ := kmalloc_first_fit arenaAt2M _ hreach
  exact ⟨_, rfl, hreach, bs, hlist, (hfit 200 (by decide) (by decide)).1⟩

end NekaKernel.Heap
