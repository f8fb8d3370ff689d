/-
  Heap/Alloc.lean --- the kernel heap, statement by statement.

  Source: `heap.c`.

  The 1 MiB arena holds the block headers and the payloads side by side, so the
  model keeps it as bytes: a header field is a little-endian word at its offset
  in `block_t`, and a write through a stray pointer would hit a header here as
  it would there.  `NKern_Lock()` / `NKern_Unlock()` bracket the bodies of
  `kmalloc` and `kfree`; they make each call one atomic step and touch nothing
  of the heap, so they do not appear below.
-/
import NekaKernel.Foundation.Memory
import NekaKernel.Kernel.Basic

set_option autoImplicit false

namespace NekaKernel.Heap

open NekaKernel.Foundation NekaKernel.Kernel

/-! ## Constants and the layout of `block_t` -/

/-- `PANIC_HEAP_OOM`. -/
def panicHeapOom : Nat := 1

/-- `PANIC_HEAP_CORRUPT`. -/
def panicHeapCorrupt : Nat := 2

/-- `HEAP_SIZE`. -/
def heapSize : Nat := 1 * 1024 * 1024

/-- `sizeof(block_t)`: `size` at 0, `free` at 8 (an `int`, then four bytes of
padding), `next` at 16, `prev` at 24. -/
def sizeofBlock : Nat := 32

/-- `sizeof(uint32_t)`, the room `kmalloc` adds for the magic word. -/
def sizeofMagic : Nat := 4

/-- `BLOCK_MAGIC`. -/
def blockMagic : Nat := 0xDEADC0DE

/-- Where the linker put `heap_arena`: a 16-byte aligned object of `heapSize`
bytes somewhere in the address space, and not at the null pointer. -/
structure Arena where
  base : Nat
  base_pos : 0 < base
  aligned : base % 16 = 0
  in_range : base + heapSize < 2 ^ 64

/-- The end of the arena. -/
def Arena.top (A : Arena) : Nat := A.base + heapSize

/-- `b->size`. -/
def size (m : Mem) (b : Nat) : Nat := m.read b 8
/-- `b->free`. -/
def free (m : Mem) (b : Nat) : Nat := m.read (b + 8) 4
/-- `b->next`. -/
def next (m : Mem) (b : Nat) : Nat := m.read (b + 16) 8
/-- `b->prev`. -/
def prev (m : Mem) (b : Nat) : Nat := m.read (b + 24) 8
/-- The word `kmalloc` keeps at the start of a used payload. -/
def magicSlot (m : Mem) (b : Nat) : Nat := m.read (b + 32) 4

def setSize (m : Mem) (b v : Nat) : Mem := m.write b 8 v
def setFree (m : Mem) (b v : Nat) : Mem := m.write (b + 8) 4 v
def setNext (m : Mem) (b v : Nat) : Mem := m.write (b + 16) 8 v
def setPrev (m : Mem) (b v : Nat) : Mem := m.write (b + 24) 8 v
def setMagicSlot (m : Mem) (b v : Nat) : Mem := m.write (b + 32) 4 v

/-! ## The code -/

/-- The allocator's state: the static `heap_list` and the memory around it. -/
structure HeapState where
  heapList : Nat
  mem : Mem

/-- `align16`: round up to a multiple of 16, in `size_t`. -/
def align16 (n : Nat) : Nat := add64 n 15 &&& (2 ^ 64 - 1 - 15)

/-- `heap_init`. -/
def heapInit (A : Arena) (m : Mem) : HeapState :=
  let m := setSize m A.base (heapSize - sizeofBlock)
  let m := setFree m A.base 1
  let m := setNext m A.base 0
  let m := setPrev m A.base 0
  { heapList := A.base, mem := m }

/-- `find_free_block`: the loop over the blocks from `b`, `0` being `NULL`.
`none` means that the loop has not ended after `fuel` iterations. -/
def findFreeBlock (m : Mem) (wanted : Nat) : Nat → Nat → Option Nat
  | 0, _ => none
  | fuel + 1, b =>
      if b = 0 then some 0
      else if free m b ≠ 0 ∧ wanted ≤ size m b then some b
      else findFreeBlock m wanted fuel (next m b)

/-- `split_block`. -/
def splitBlock (m : Mem) (b wanted : Nat) : Mem :=
  let remaining := sub64 (size m b) wanted
  if remaining ≤ sizeofBlock + 16 then m
  else
    let newBlock := add64 (add64 b sizeofBlock) wanted
    let m := setSize m newBlock (remaining - sizeofBlock)
    let m := setFree m newBlock 1
    let m := setNext m newBlock (next m b)
    let m := setPrev m newBlock b
    let m := if next m b ≠ 0 then setPrev m (next m b) newBlock else m
    let m := setNext m b newBlock
    setSize m b wanted

/-- `kmalloc`.  The result is the payload pointer, `0` for `kmalloc(0)`. -/
def kmalloc (s : HeapState) (n : Nat) : Exit Nat × HeapState :=
  if n = 0 then (.ret 0, s)
  else
    let totalNeeded := add64 (align16 n) sizeofMagic
    match findFreeBlock s.mem totalNeeded loopFuel s.heapList with
    | none => (.hang, s)
    | some b =>
        if b = 0 then (.panic .HEAP panicHeapOom, s)
        else
          let m := splitBlock s.mem b totalNeeded
          let m := setFree m b 0
          let m := setMagicSlot m b blockMagic
          (.ret (add64 (add64 b sizeofBlock) sizeofMagic), { s with mem := m })

/-- `coalesce_forward`. -/
def coalesceForward (m : Mem) (b : Nat) : Mem :=
  let n := next m b
  if n ≠ 0 ∧ free m n ≠ 0 then
    let m := setSize m b (add64 (size m b) (add64 sizeofBlock (size m n)))
    let m := setNext m b (next m n)
    if next m n ≠ 0 then setPrev m (next m n) b else m
  else m

/-- `kfree`. -/
def kfree (s : HeapState) (ptr : Nat) : Exit Unit × HeapState :=
  if ptr = 0 then (.ret (), s)
  else
    let slot := sub64 ptr sizeofMagic
    if s.mem.read slot 4 ≠ blockMagic then (.panic .HEAP panicHeapCorrupt, s)
    else
      let b := sub64 slot sizeofBlock
      let m := setFree s.mem b 1
      let m := m.write slot 4 0
      let m := coalesceForward m b
      let m := if prev m b ≠ 0 ∧ free m (prev m b) ≠ 0 then coalesceForward m (prev m b) else m
      (.ret (), { s with mem := m })

/-- The loop of `heap_free_bytes`, with the running `total`. -/
def freeBytesFrom (m : Mem) : Nat → Nat → Nat → Option Nat
  | 0, _, _ => none
  | fuel + 1, b, total =>
      if b = 0 then some total
      else freeBytesFrom m fuel (next m b)
        (if free m b ≠ 0 then add64 total (size m b) else total)

/-- `heap_free_bytes`. -/
def heapFreeBytes (s : HeapState) : Option Nat :=
  freeBytesFrom s.mem loopFuel s.heapList 0

/-! ## The block list

Not a function of the source: what the headers say when they are followed from
`heap_list` by `next`, which is how every loop of `heap.c` sees the heap. -/

/-- A block header together with its address. -/
structure BlockHeader where
  addr : Nat
  size : Nat
  free : Nat
  next : Nat
  prev : Nat
  deriving DecidableEq, Repr

/-- The header at `b`. -/
def headerAt (m : Mem) (b : Nat) : BlockHeader :=
  ⟨b, size m b, free m b, next m b, prev m b⟩

/-- The headers reached from `b` by `next`. -/
def blocksFrom (m : Mem) : Nat → Nat → Option (List BlockHeader)
  | 0, _ => none
  | fuel + 1, b =>
      if b = 0 then some []
      else (blocksFrom m fuel (next m b)).map (headerAt m b :: ·)

/-- The block list of the heap. -/
def blockList (s : HeapState) : Option (List BlockHeader) :=
  blocksFrom s.mem loopFuel s.heapList

end NekaKernel.Heap
