/-
  Memmap/Regions.lean --- the frame allocator over the firmware's memory map.

  Source: `memmap.c`, with the end of the kernel image from `linker64.ld` and
  `elf_x86_64_efi_neka.lds`.

  `regions[]` is what the multiboot and UEFI parsers found usable.
  `memmap_alloc_frame` walks it once, with a cursor made of a region and an
  offset from that region's rounded base.  All arithmetic is `uint64_t` and wraps.
  What `memmap_activate` prints is not part of the model.
-/
import NekaKernel.Kernel.Basic

set_option autoImplicit false

namespace NekaKernel.Memmap

open NekaKernel.Kernel

/-! ## Data -/

/-- `region_t`. -/
structure Region where
  base : Nat
  length : Nat
  base_lt : base < 2 ^ 64
  length_lt : length < 2 ^ 64
  deriving DecidableEq

/-- `MAX_REGIONS`. -/
def maxRegions : Nat := 64

/-- `regions[]` up to `region_count`. -/
structure RegionTable where
  entries : List Region
  bounded : entries.length ≤ maxRegions

/-- `add_region`: a region too many is ignored. -/
def RegionTable.addRegion (T : RegionTable) (r : Region) : RegionTable :=
  if h : T.entries.length < maxRegions then
    ⟨T.entries ++ [r], by rw [List.length_append, List.length_singleton]; exact h⟩
  else T

/-- The range `memmap_activate` is told to leave alone: the kernel image, whose
end the linker scripts round up to a page. -/
structure Reserved where
  lo : Nat
  hi : Nat
  le : lo ≤ hi
  aligned : hi % 4096 = 0
  in_range : hi < 2 ^ 64

/-- The statics of `memmap.c`. -/
structure MapState where
  table : RegionTable
  mapActive : Bool
  reserveStart : Nat
  reserveEnd : Nat
  curRegion : Nat
  curOffset : Nat

/-! ## The functions -/

/-- The statics at boot, with the regions the parsers added. -/
def MapState.boot (T : RegionTable) : MapState := ⟨T, false, 0, 0, 0, 0⟩

/-- `memmap_activate`. -/
def memmapActivate (m : MapState) (reservedLo reservedHi : Nat) : MapState :=
  { m with
    reserveStart := reservedLo
    reserveEnd := reservedHi
    curRegion := 0
    curOffset := 0
    mapActive := true }

/-- `memmap_is_active`. -/
def memmapIsActive (m : MapState) : Bool := m.mapActive

/-- `(r->base + 0xFFF) & ~0xFFFULL`. -/
def Region.baseAligned (r : Region) : Nat := pageMask (add64 r.base 0xFFF)

/-- `r->base + r->length`. -/
def Region.regionEnd (r : Region) : Nat := add64 r.base r.length

/-- `PANIC_MEMMAP_OOM`. -/
def panicMemmapOom : Nat := 1

/-- How one iteration of the search ends. -/
inductive AllocStep where
  /-- `continue`. -/
  | again (m : MapState)
  /-- `return (void *)addr`. -/
  | found (addr : Nat) (m : MapState)
  /-- The loop condition fails. -/
  | exhausted

/-- The body of the loop of `memmap_alloc_frame`. -/
def allocStep (m : MapState) : AllocStep :=
  match m.table.entries[m.curRegion]? with
  | none => .exhausted
  | some r =>
      let addr := add64 r.baseAligned m.curOffset
      if r.regionEnd ≤ addr then .again { m with curRegion := m.curRegion + 1, curOffset := 0 }
      else if addr < 0x100000 then
        .again { m with
          curOffset := if r.baseAligned < 0x100000 then sub64 0x100000 r.baseAligned else 0 }
      else if addr < m.reserveEnd ∧ m.reserveStart < add64 addr 4096 then
        .again { m with
          curOffset :=
            if r.baseAligned < m.reserveEnd then sub64 m.reserveEnd r.baseAligned
            else add64 m.curOffset 4096 }
      else .found addr { m with curOffset := add64 m.curOffset 4096 }

/-- The loop; `hang` when it has not ended after `fuel` iterations. -/
def allocLoop : Nat → MapState → Exit Nat × MapState
  | 0, m => (.hang, m)
  | fuel + 1, m =>
      match allocStep m with
      | .again m => allocLoop fuel m
      | .found addr m => (.ret addr, m)
      | .exhausted => (.panic .MEMMAP panicMemmapOom, m)

/-- `memmap_alloc_frame`. -/
def memmapAllocFrame (m : MapState) : Exit Nat × MapState := allocLoop loopFuel m

/-- The results of up to `n` calls in a row.  Nothing runs after a call that does
not return. -/
def memmapAllocFrames : Nat → MapState → List (Exit Nat)
  | 0, _ => []
  | n + 1, m =>
      match memmapAllocFrame m with
      | (.ret addr, m) => .ret addr :: memmapAllocFrames n m
      | (e, _) => [e]

/-! ## Region arithmetic -/

section Arithmetic

variable {r : Region}

/-- The region, with everything an access to its last page touches, lies below
`2 ^ 64`. -/
def Region.Fits (r : Region) : Prop := r.base + r.length + 0xFFF < 2 ^ 64

instance (r : Region) : Decidable r.Fits := inferInstanceAs (Decidable (_ < _))

/-- `x` is an address of the region. -/
def Region.Contains (r : Region) (x : Nat) : Prop := r.base ≤ x ∧ x < r.base + r.length

theorem Region.baseAligned_lt (r : Region) : r.baseAligned < 2 ^ 64 := by
  have hlt : add64 r.base 0xFFF < 2 ^ 64 := Nat.mod_lt _ (by decide)
  unfold Region.baseAligned
  rw [pageMask_eq hlt]
  omega

theorem Region.baseAligned_mod (r : Region) : r.baseAligned % 4096 = 0 := by
  have hlt : add64 r.base 0xFFF < 2 ^ 64 := Nat.mod_lt _ (by decide)
  unfold Region.baseAligned
  rw [pageMask_eq hlt]
  exact Nat.mul_mod_left _ _

/-- The first page boundary at or above the base, when rounding does not wrap. -/
theorem Region.baseAligned_eq (h : r.base + 0xFFF < 2 ^ 64) :
    r.baseAligned = (r.base + 0xFFF) / 4096 * 4096 := by
  unfold Region.baseAligned
  rw [add64_of_lt h, pageMask_eq h]

theorem Region.regionEnd_eq (h : r.base + r.length < 2 ^ 64) :
    r.regionEnd = r.base + r.length :=
  add64_of_lt h

/-- Rounding up does not pass a page of the region. -/
theorem Region.baseAligned_le_iff {p : Nat} (h : r.base + 0xFFF < 2 ^ 64) (hp : p % 4096 = 0) :
    r.baseAligned ≤ p ↔ r.base ≤ p := by
  rw [Region.baseAligned_eq h]
  omega

end Arithmetic

end NekaKernel.Memmap
