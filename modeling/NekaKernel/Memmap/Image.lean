/-
  Memmap/Image.lean --- the range that `kernel_main64` reserves for its image.

  Source: the call of `memmap_activate` in `main64.c`, `kernel_end` from
  `linker64.ld` and `elf_x86_64_efi_neka.lds`, `efi_main` in `uefi_main.c`.

  Both boot paths reserve from one megabyte to `kernel_end`.  GRUB loads the image
  at one megabyte, so that is the image.  UEFI firmware loads it where it likes and
  relocates `kernel_end` with it, so there the range also takes in whatever memory
  lies between one megabyte and the image.
-/
import NekaKernel.Heap.Alloc
import NekaKernel.Memmap.Usable

set_option autoImplicit false

namespace NekaKernel.Memmap

open NekaKernel.Kernel

/-- Where the kernel image is: from its load address to `kernel_end`, which both
linker scripts put on a page boundary.  The heap arena is part of it. -/
structure Image where
  lo : Nat
  kernelEnd : Nat
  arena : lo + Heap.heapSize ≤ kernelEnd
  aligned : kernelEnd % 4096 = 0
  in_range : kernelEnd < 2 ^ 64

/-- The page at `p` and the image have no byte in common. -/
def Image.Avoids (img : Image) (p : Nat) : Prop := p + 4096 ≤ img.lo ∨ img.kernelEnd ≤ p

instance (img : Image) (p : Nat) : Decidable (img.Avoids p) :=
  inferInstanceAs (Decidable (_ ∨ _))

/-- The range reserved by `memmap_activate(0x100000, (uint64_t)&kernel_end)`. -/
def Image.reserved (img : Image) : Reserved where
  lo := 0x100000
  hi := img.kernelEnd
  le := by
    have h := img.arena
    unfold Heap.heapSize at h
    omega
  aligned := img.aligned
  in_range := img.in_range

/-- The allocator after the call in `kernel_main64`, with what the parsers found. -/
def activated (T : RegionTable) (img : Image) : MapState :=
  memmapActivate (.boot T) 0x100000 img.kernelEnd

/-- Every usable page above the first megabyte that is not the image's is handed
out before the allocator panics. -/
def AllHandedOut (T : RegionTable) (img : Image) : Prop :=
  ∀ p, p % 4096 = 0 → 0x100000 ≤ p → (∃ r ∈ T.entries, r.Covers p) → img.Avoids p →
    ∃ n, .ret p ∈ memmapAllocFrames n (activated T img)

/-- No region has a page between one megabyte and the image. -/
def NothingBelow (T : RegionTable) (img : Image) : Prop :=
  ∀ r ∈ T.entries, ∀ p, p % 4096 = 0 → 0x100000 ≤ p → p + 4096 ≤ img.lo → ¬ r.Covers p

section Image

variable {T : RegionTable} {img : Image} {p : Nat}

/-- What is handed out: the pages of regions above the first megabyte and outside
the reserved range. -/
theorem handed_out_iff (hfit : ∀ r ∈ T.entries, r.Fits) :
    (∃ n, .ret p ∈ memmapAllocFrames n (activated T img)) ↔
      ∃ r ∈ T.entries, p % 4096 = 0 ∧ r.Contains p ∧ 0x100000 ≤ p ∧ img.kernelEnd ≤ p := by
  have hframes : (∃ n, .ret p ∈ memmapAllocFrames n (activated T img)) ↔
      p ∈ frames T img.reserved :=
    returned_iff (m := .boot T) (R := img.reserved) hfit
  rw [hframes, mem_frames]
  constructor
  · rintro ⟨r, hr, hmem⟩
    obtain ⟨hmod, hin, hhigh, hout⟩ := (mem_regionFrames_of_fits (hfit r hr)).mp hmem
    refine ⟨r, hr, hmod, hin, hhigh, ?_⟩
    have hfirst := hout p (Nat.le_refl p) (by omega)
    simp only [Image.reserved] at hfirst
    omega
  · rintro ⟨r, hr, hmod, hin, hhigh, hend⟩
    refine ⟨r, hr, (mem_regionFrames_of_fits (hfit r hr)).mpr ⟨hmod, hin, hhigh, ?_⟩⟩
    intro x hpx _ hres
    have hlt : x < img.kernelEnd := hres.2
    omega

/-- A page below the image is not handed out. -/
theorem not_handed_out (hfit : ∀ r ∈ T.entries, r.Fits) (hlt : p < img.kernelEnd) :
    ¬ ∃ n, .ret p ∈ memmapAllocFrames n (activated T img) := by
  intro h
  obtain ⟨r, -, -, -, -, hend⟩ := (handed_out_iff hfit).mp h
  omega

end Image

/-- **The reservation hides nothing** exactly when no region has a page between one
megabyte and the image, as with the image that GRUB loads at one megabyte. -/
theorem reservation_hides_nothing_iff (T : RegionTable) (img : Image)
    (hfit : ∀ r ∈ T.entries, r.Fits) :
    (AllHandedOut T img ↔ NothingBelow T img) ∧ (img.lo = 0x100000 → AllHandedOut T img) := by
  have hiff : AllHandedOut T img ↔ NothingBelow T img := by
    constructor
    · intro hall r hr p hmod hhigh hbelow hcovers
      have hlt : p < img.kernelEnd := by
        have harena := img.arena
        omega
      exact not_handed_out hfit hlt (hall p hmod hhigh ⟨r, hr, hcovers⟩ (Or.inl hbelow))
    · rintro hnone p hmod hhigh ⟨r, hr, hcovers⟩ (hbelow | hend)
      · exact absurd hcovers (hnone r hr p hmod hhigh hbelow)
      · have hin : r.Contains p := by
          unfold Region.Covers at hcovers
          unfold Region.Contains
          omega
        exact (handed_out_iff hfit).mpr ⟨r, hr, hmod, hin, hhigh, hend⟩
  refine ⟨hiff, fun hlo => hiff.mpr ?_⟩
  intro r _ p _ hhigh hbelow
  omega

/-- An image of two megabytes where the firmware put it. -/
def imageAt (lo : Nat) (haligned : lo % 4096 = 0) (hlt : lo < 2 ^ 32) : Image where
  lo := lo
  kernelEnd := lo + 0x200000
  arena := by unfold Heap.heapSize; omega
  aligned := by omega
  in_range := by omega

/-- A machine with one usable megabyte from one megabyte on and more above. -/
def twoBanks : RegionTable :=
  ⟨[⟨0x100000, 0x100000, by decide, by decide⟩, ⟨0x4000000, 0x4000000, by decide, by decide⟩],
    by decide⟩

theorem reservation_hides_nothing_low_image :
    (∀ r ∈ twoBanks.entries, r.Fits) ∧
      AllHandedOut twoBanks (imageAt 0x100000 (by decide) (by decide)) := by
  have hfit : ∀ r ∈ twoBanks.entries, r.Fits := by decide
  exact ⟨hfit, (reservation_hides_nothing_iff twoBanks _ hfit).2 rfl⟩

/-- With the image at 48 MiB, where no usable region is, the page at one megabyte is
usable, not the image's and never handed out. -/
theorem high_image_hides_low_memory :
    (∀ r ∈ twoBanks.entries, r.Fits ∧ (r.base + r.length ≤ 0x3000000 ∨ 0x3200000 ≤ r.base)) ∧
      ¬ AllHandedOut twoBanks (imageAt 0x3000000 (by decide) (by decide)) := by
  have hfit : ∀ r ∈ twoBanks.entries, r.Fits := by decide
  refine ⟨by decide, fun hall => ?_⟩
  have hcovered : ∃ r ∈ twoBanks.entries, r.Covers 0x100000 := by decide
  exact not_handed_out hfit (by decide)
    (hall 0x100000 (by decide) (by decide) hcovered (Or.inl (by decide)))

end NekaKernel.Memmap
