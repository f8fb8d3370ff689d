/-
  Memmap/Parsers.lean --- where the table of regions comes from.

  Source: `memmap_parse_multiboot` and `memmap_parse_uefi` in `memmap.c`.

  The two boot loaders describe memory in two formats.  A multiboot record gives
  its own size, not counting the field that gives it; EFI descriptors stand at a
  distance that the firmware tells separately.  `MultibootMap` and `UefiMap` say
  what such a map looks like in memory, and the main result is that both functions
  take the usable ranges out of it, in order, up to the 64 the table holds.
-/
import NekaKernel.Foundation.Records
import NekaKernel.Memmap.Regions

set_option autoImplicit false

namespace NekaKernel.Memmap

open NekaKernel.Foundation NekaKernel.Kernel

/-! ## Multiboot -/

/-- `MULTIBOOT_MEM_AVAILABLE`. -/
def multibootMemAvailable : Nat := 1

/-- `a * b` in `uint64_t`. -/
def mul64 (a b : Nat) : Nat := a * b % 2 ^ 64

/-- `{base, length}` for values of `uint64_t`. -/
def mkRegion (base length : Nat) : Region :=
  ⟨base % 2 ^ 64, length % 2 ^ 64, Nat.mod_lt _ (by decide), Nat.mod_lt _ (by decide)⟩

/-- The loop of `memmap_parse_multiboot`; `hang` when it has not ended after `fuel`
iterations. -/
def parseMultibootLoop (m : Mem) (stop : Nat) : Nat → Nat → RegionTable → Exit RegionTable
  | 0, _, _ => .hang
  | fuel + 1, ptr, T =>
      if ptr < stop then
        let T := if m.read (ptr + 20) 4 = multibootMemAvailable then
            T.addRegion (mkRegion (m.read (ptr + 4) 8) (m.read (ptr + 12) 8))
          else T
        -- `size` does not count itself; the sum is `size_t`
        parseMultibootLoop m stop fuel (add64 ptr (m.read ptr 4 + 4)) T
      else .ret T

/-- `memmap_parse_multiboot`.  `mmap_addr + mmap_length` is a sum of two `uint32_t`. -/
def memmapParseMultiboot (m : Mem) (T : RegionTable) (mbiAddr : Nat) : Exit RegionTable :=
  if mbiAddr = 0 then .ret T
  else if (m.read mbiAddr 4).testBit 6 then
    let mmapLength := m.read (mbiAddr + 44) 4
    let mmapAddr := m.read (mbiAddr + 48) 4
    parseMultibootLoop m ((mmapAddr + mmapLength) % 2 ^ 32) loopFuel mmapAddr T
  else .ret T

/-! ## UEFI -/

/-- `EFI_CONVENTIONAL_MEMORY`. -/
def efiConventionalMemory : Nat := 7

/-- The loop of `memmap_parse_uefi`. -/
def parseUefiLoop (m : Mem) (map mapSize descriptorSize : Nat) :
    Nat → Nat → RegionTable → Exit RegionTable
  | 0, _, _ => .hang
  | fuel + 1, offset, T =>
      if offset < mapSize then
        let d := add64 map offset
        let T := if m.read d 4 = efiConventionalMemory then
            T.addRegion (mkRegion (m.read (d + 8) 8) (mul64 (m.read (d + 24) 8) 4096))
          else T
        parseUefiLoop m map mapSize descriptorSize fuel (add64 offset descriptorSize) T
      else .ret T

/-- `memmap_parse_uefi`. -/
def memmapParseUefi (m : Mem) (T : RegionTable) (map mapSize descriptorSize : Nat) :
    Exit RegionTable :=
  parseUefiLoop m map mapSize descriptorSize loopFuel 0 T

/-! ## Maps in memory -/

/-- `multiboot_mmap_entry_t`: the fields, and a size that covers them. -/
structure MmapEntry where
  size : Nat
  addr : Nat
  len : Nat
  type : Nat
  covers : 20 ≤ size

namespace MmapEntry

/-- The entry is in memory at `a`; what is behind `type` is arbitrary. -/
def Stands (m : Mem) (a : Nat) (e : MmapEntry) : Prop :=
  m.read a 4 = e.size ∧ m.read (a + 4) 8 = e.addr ∧ m.read (a + 12) 8 = e.len ∧
  m.read (a + 20) 4 = e.type

/-- From one entry to the next. -/
def width (e : MmapEntry) : Nat := e.size + 4

/-- The range of an entry that is available memory. -/
def available (e : MmapEntry) : Option Region :=
  if e.type = multibootMemAvailable then some (mkRegion e.addr e.len) else none

end MmapEntry

/-- A multiboot memory map: the information at `mbi` has the flag of the map set
and names the range of 32-bit addresses where the entries stand. -/
structure MultibootMap (m : Mem) (mbi : Nat) (es : List MmapEntry) : Prop where
  nonzero : mbi ≠ 0
  flagged : (m.read mbi 4).testBit 6 = true
  length : m.read (mbi + 44) 4 = span MmapEntry.width es
  in_range : m.read (mbi + 48) 4 + m.read (mbi + 44) 4 < 2 ^ 32
  entries : Laid MmapEntry.Stands MmapEntry.width m (m.read (mbi + 48) 4) es

/-- `efi_mem_descriptor_t`, in the fields that are read. -/
structure EfiDescriptor where
  type : Nat
  physStart : Nat
  numPages : Nat

namespace EfiDescriptor

/-- The descriptor is in memory at `a`. -/
def Stands (m : Mem) (a : Nat) (d : EfiDescriptor) : Prop :=
  m.read a 4 = d.type ∧ m.read (a + 8) 8 = d.physStart ∧ m.read (a + 24) 8 = d.numPages

/-- The range of a descriptor of conventional memory. -/
def conventional (d : EfiDescriptor) : Option Region :=
  if d.type = efiConventionalMemory then
    some (mkRegion d.physStart (mul64 d.numPages 4096)) else none

end EfiDescriptor

/-- An EFI memory map: descriptors at a distance that leaves room for their fields,
in a buffer below `2 ^ 64`. -/
structure UefiMap (m : Mem) (map mapSize descriptorSize : Nat)
    (ds : List EfiDescriptor) : Prop where
  stride : 40 ≤ descriptorSize
  length : mapSize = ds.length * descriptorSize
  in_range : map + mapSize < 2 ^ 64
  entries : Laid EfiDescriptor.Stands (fun _ => descriptorSize) m map ds

/-- The available ranges, as a filter. -/
theorem filterMap_available (es : List MmapEntry) :
    es.filterMap MmapEntry.available =
      (es.filter (·.type = multibootMemAvailable)).map fun e => mkRegion e.addr e.len := by
  rw [← List.filterMap_eq_map, List.filterMap_filter]
  congr 1
  funext e
  by_cases h : e.type = multibootMemAvailable
  · simp [MmapEntry.available, h]
  · simp [MmapEntry.available, h]

theorem mkRegion_mul64 (base pages : Nat) :
    mkRegion base (mul64 pages 4096) = mkRegion base (pages * 4096) := by
  unfold mkRegion mul64
  congr 1
  exact Nat.mod_mod _ _

theorem filterMap_conventional (ds : List EfiDescriptor) :
    ds.filterMap EfiDescriptor.conventional =
      (ds.filter (·.type = efiConventionalMemory)).map fun d =>
        mkRegion d.physStart (d.numPages * 4096) := by
  rw [← List.filterMap_eq_map, List.filterMap_filter]
  congr 1
  funext d
  by_cases h : d.type = efiConventionalMemory
  · simp [EfiDescriptor.conventional, h, mkRegion_mul64]
  · simp [EfiDescriptor.conventional, h]

/-! ## The table -/

/-- The table after more regions: the first 64 of all. -/
def RegionTable.extend (T : RegionTable) (rs : List Region) : RegionTable :=
  ⟨(T.entries ++ rs).take maxRegions, List.length_take_le _ _⟩

section Table

variable {T : RegionTable}

theorem extend_nil : T.extend [] = T := by
  unfold RegionTable.extend
  congr 1
  rw [List.append_nil, List.take_of_length_le T.bounded]

/-- `add_region` is the next region of the list. -/
theorem extend_addRegion (r : Region) (rs : List Region) :
    (T.addRegion r).extend rs = T.extend (r :: rs) := by
  unfold RegionTable.addRegion
  split
  · unfold RegionTable.extend
    congr 1
    simp
  · rename_i hfull
    have hlen : T.entries.length = maxRegions :=
      Nat.le_antisymm T.bounded (Nat.le_of_not_lt hfull)
    unfold RegionTable.extend
    congr 1
    rw [List.take_append_of_le_length (Nat.le_of_eq hlen.symm),
      List.take_append_of_le_length (Nat.le_of_eq hlen.symm)]

end Table

/-! ## The loops -/

/-- **The loop over multiboot entries** takes out the available ones. -/
theorem parseMultibootLoop_laid {m : Mem} :
    ∀ {es : List MmapEntry} {ptr fuel : Nat} {T : RegionTable},
    Laid MmapEntry.Stands MmapEntry.width m ptr es → ptr + span MmapEntry.width es < 2 ^ 64 →
    es.length < fuel →
      parseMultibootLoop m (ptr + span MmapEntry.width es) fuel ptr T =
        .ret (T.extend (es.filterMap MmapEntry.available)) := by
  intro es
  induction es with
  | nil =>
    intro ptr fuel T _ _ hfuel
    obtain ⟨fuel, rfl⟩ : ∃ k, fuel = k + 1 := ⟨fuel - 1, by simp at hfuel; omega⟩
    simp [parseMultibootLoop, extend_nil]
  | cons e es ih =>
    intro ptr fuel T hlaid hrange hfuel
    obtain ⟨fuel, rfl⟩ : ∃ k, fuel = k + 1 := ⟨fuel - 1, by simp at hfuel; omega⟩
    obtain ⟨⟨hsize, haddr, hlen, htype⟩, hrest⟩ := hlaid
    rw [span_cons] at hrange ⊢
    have hwidth : e.width = e.size + 4 := rfl
    have hnext : add64 ptr (m.read ptr 4 + 4) = ptr + e.width := by
      rw [hsize, ← hwidth]
      exact add64_of_lt (by omega)
    rw [parseMultibootLoop, if_pos (by omega), hnext, haddr, hlen, htype, ← Nat.add_assoc]
    rw [← Nat.add_assoc] at hrange
    dsimp only
    rw [ih hrest hrange (by simpa using hfuel)]
    by_cases havail : e.type = multibootMemAvailable
    · rw [if_pos havail, List.filterMap_cons_some (b := mkRegion e.addr e.len)
        (by simp [MmapEntry.available, havail]), extend_addRegion]
    · rw [if_neg havail, List.filterMap_cons_none (by simp [MmapEntry.available, havail])]

/-- **The loop over EFI descriptors** takes out those of conventional memory. -/
theorem parseUefiLoop_laid {m : Mem} {map size : Nat} (hsize : 0 < size) :
    ∀ (ds : List EfiDescriptor) (offset fuel : Nat) (T : RegionTable),
      Laid EfiDescriptor.Stands (fun _ => size) m (map + offset) ds →
      map + offset + ds.length * size < 2 ^ 64 →
        ds.length < fuel →
          parseUefiLoop m map (offset + ds.length * size) size fuel offset T =
            .ret (T.extend (ds.filterMap EfiDescriptor.conventional)) := by
  intro ds
  induction ds with
  | nil =>
    intro offset fuel T _ _ hfuel
    obtain ⟨fuel, rfl⟩ : ∃ k, fuel = k + 1 := ⟨fuel - 1, by simp at hfuel; omega⟩
    simp [parseUefiLoop, extend_nil]
  | cons d ds ih =>
    intro offset fuel T hlaid hrange hfuel
    obtain ⟨fuel, rfl⟩ : ∃ k, fuel = k + 1 := ⟨fuel - 1, by simp at hfuel; omega⟩
    obtain ⟨⟨htype, hstart, hpages⟩, hrest⟩ := hlaid
    have hspan : (d :: ds).length * size = size + ds.length * size := by
      rw [List.length_cons, Nat.succ_mul, Nat.add_comm]
    rw [hspan] at hrange ⊢
    have hat : add64 map offset = map + offset := add64_of_lt (by omega)
    have hnext : add64 offset size = offset + size := add64_of_lt (by omega)
    rw [parseUefiLoop, if_pos (by omega), hat, hnext]
    dsimp only
    rw [hstart, hpages, htype, ← Nat.add_assoc]
    rw [Nat.add_assoc map] at hrest
    rw [ih (offset + size) fuel _ hrest (by omega) (by simpa using hfuel)]
    by_cases hconv : d.type = efiConventionalMemory
    · rw [if_pos hconv, List.filterMap_cons_some
        (b := mkRegion d.physStart (mul64 d.numPages 4096))
        (by simp [EfiDescriptor.conventional, hconv]), extend_addRegion]
    · rw [if_neg hconv, List.filterMap_cons_none (by simp [EfiDescriptor.conventional, hconv])]

/-! ## The parsers -/

section Parsers

variable {m : Mem} {T : RegionTable}

theorem memmapParseMultiboot_eq {mbi : Nat} {es : List MmapEntry} (h : MultibootMap m mbi es) :
    memmapParseMultiboot m T mbi = .ret (T.extend (es.filterMap MmapEntry.available)) := by
  have hlen := h.length
  have hrange := h.in_range
  have hcount : es.length ≤ span MmapEntry.width es :=
    length_le_span fun e _ => Nat.succ_pos (e.size + 3)
  unfold memmapParseMultiboot
  rw [if_neg h.nonzero, if_pos h.flagged]
  dsimp only
  rw [Nat.mod_eq_of_lt hrange, hlen]
  exact parseMultibootLoop_laid h.entries (by omega) (by unfold loopFuel; omega)

theorem memmapParseUefi_eq {map mapSize descriptorSize : Nat} {ds : List EfiDescriptor}
    (h : UefiMap m map mapSize descriptorSize ds) :
    memmapParseUefi m T map mapSize descriptorSize =
      .ret (T.extend (ds.filterMap EfiDescriptor.conventional)) := by
  have hstride := h.stride
  have hrange := h.in_range
  have hlen := h.length
  have hcount : ds.length ≤ ds.length * descriptorSize := Nat.le_mul_of_pos_right _ (by omega)
  have hloop := parseUefiLoop_laid (show 0 < descriptorSize by omega)
    ds 0 loopFuel T h.entries (by omega)
    (by unfold loopFuel; omega)
  rw [Nat.zero_add, ← hlen] at hloop
  exact hloop

end Parsers

/-- **Both parsers are exact.**  Each adds the usable ranges of its map, in order,
and keeps the first 64 of all; so a list of ranges of whole pages gives the same
table in either format. -/
theorem memmap_parsers_exact (T : RegionTable) {m m' : Mem}
    {mbi map mapSize descriptorSize : Nat} {es : List MmapEntry} {ds : List EfiDescriptor}
    (hes : MultibootMap m mbi es) (hds : UefiMap m' map mapSize descriptorSize ds) :
    memmapParseMultiboot m T mbi = .ret (T.extend (es.filterMap MmapEntry.available)) ∧
    memmapParseUefi m' T map mapSize descriptorSize =
      .ret (T.extend (ds.filterMap EfiDescriptor.conventional)) ∧
    ∀ ranges : List (Nat × Nat),
      ((es.filter (·.type = multibootMemAvailable)).map fun e => (e.addr, e.len)) =
        ranges.map (fun r => (r.1, r.2 * 4096)) →
      ((ds.filter (·.type = efiConventionalMemory)).map fun d => (d.physStart, d.numPages)) =
        ranges →
        memmapParseMultiboot m T mbi = memmapParseUefi m' T map mapSize descriptorSize := by
  refine ⟨memmapParseMultiboot_eq hes, memmapParseUefi_eq hds,
    fun ranges hranges hranges' => ?_⟩
  have havailable : es.filterMap MmapEntry.available = ranges.map fun r =>
    mkRegion r.1 (r.2 * 4096) := by
    have hmap := congrArg (List.map fun r : Nat × Nat => mkRegion r.1 r.2) hranges
    rw [List.map_map, List.map_map] at hmap
    rw [filterMap_available]
    exact hmap
  have hconventional : ds.filterMap EfiDescriptor.conventional = ranges.map fun r =>
    mkRegion r.1 (r.2 * 4096) := by
    rw [filterMap_conventional, ← hranges', List.map_map]
    rfl
  rw [memmapParseMultiboot_eq hes, memmapParseUefi_eq hds, havailable, hconventional]

/-! ## One range in both formats -/

/-- A multiboot map with a padded reserved entry behind the available one, and the
EFI map of the same machine. -/
def bothMaps : Mem :=
  let m : Mem := fun _ => 0
  let m := ((m.write 0x1000 4 0x40).write 0x102C 4 56).write 0x1030 4 0x2000
  let m :=
    (((m.write 0x2000 4 20).write 0x2004 8 0x100000).write 0x200C 8 0x3000).write 0x2014 4 1
  let m :=
    (((m.write 0x2018 4 28).write 0x201C 8 0xF0000).write 0x2024 8 0x10000).write 0x202C 4 2
  let m := ((m.write 0x3000 4 1).write 0x3008 8 0xF0000).write 0x3018 8 16
  ((m.write 0x3030 4 7).write 0x3038 8 0x100000).write 0x3048 8 3

def bothMapsEntries : List MmapEntry :=
  [⟨20, 0x100000, 0x3000, 1, by decide⟩, ⟨28, 0xF0000, 0x10000, 2, by decide⟩]

def bothMapsDescriptors : List EfiDescriptor := [⟨1, 0xF0000, 16⟩, ⟨7, 0x100000, 3⟩]

theorem bothMaps_multiboot : MultibootMap bothMaps 0x1000 bothMapsEntries :=
  ⟨by decide, by decide +kernel, by decide +kernel, by decide +kernel,
    ⟨by decide +kernel, by decide +kernel, by decide +kernel, by decide +kernel⟩,
    ⟨by decide +kernel, by decide +kernel, by decide +kernel, by decide +kernel⟩, trivial⟩

theorem bothMaps_uefi : UefiMap bothMaps 0x3000 96 48 bothMapsDescriptors :=
  ⟨by decide, by decide, by decide, ⟨by decide +kernel, by decide +kernel, by decide +kernel⟩,
    ⟨by decide +kernel, by decide +kernel, by decide +kernel⟩, trivial⟩

theorem memmap_parsers_exact_one_range :
    memmapParseMultiboot bothMaps ⟨[], by decide⟩ 0x1000 =
      .ret ⟨[mkRegion 0x100000 0x3000], by decide⟩ ∧
    memmapParseUefi bothMaps ⟨[], by decide⟩ 0x3000 96 48 =
      .ret ⟨[mkRegion 0x100000 0x3000], by decide⟩ := by
  obtain ⟨hmultiboot, -, hsame⟩ :=
    memmap_parsers_exact ⟨[], by decide⟩ bothMaps_multiboot bothMaps_uefi
  rw [← hsame [(0x100000, 3)] (by decide) (by decide), hmultiboot]
  exact ⟨rfl, rfl⟩

end NekaKernel.Memmap
