/-
  Paging/Tables.lean --- the functions that build page tables.

  Source: `paging64.c`.

  Tables are read and written through pointers that equal their physical
  addresses.  `alloc_frame` takes the next frame of `supply`; where its frames
  come from is in `Paging/Frames.lean`.  A frame that is not there is the panic of
  `alloc_frame`, after which nothing runs.  Every store is also recorded, with its
  address and its size, so that one can say what a call writes to.
-/
import NekaKernel.Foundation.Frames
import NekaKernel.Kernel.Basic

set_option autoImplicit false

namespace NekaKernel.Paging

open NekaKernel.Foundation NekaKernel.Kernel

/-! ## State -/

/-- Physical memory, the frames `alloc_frame` will return, the statics
`kernel_pml4` and `kernel_pdpt`, the CR3 register and the stores made, the last
one first. -/
structure PageState where
  mem : Mem
  supply : List Nat
  kernelPml4 : Nat
  kernelPdpt : Nat
  cr3 : Nat
  writes : List (Nat × Nat)

/-- A computation on the tables; `none` is a panic. -/
abbrev PagingM := StateT PageState Option

/-- `*(T *)a = v` for a type of `n` bytes. -/
def store (a n v : Nat) : PagingM Unit := fun s =>
  some ((), { s with mem := s.mem.write a n v, writes := (a, n) :: s.writes })

/-- `table[idx]`. -/
def loadEntry (table idx : Nat) : PagingM Nat := fun s => some (s.mem.entry table idx, s)

/-- `table[idx] = v`. -/
def storeEntry (table idx v : Nat) : PagingM Unit := store (table + 8 * idx) 8 v

/-- `for (int i = 0; i < n; i++)`. -/
def forUpTo : Nat → (Nat → PagingM Unit) → PagingM Unit
  | 0, _ => pure ()
  | n + 1, body => do
      forUpTo n body
      body n

/-- The next frame of the supply. -/
def takeFrame : PagingM Nat := fun s =>
  match s.supply with
  | [] => none
  | f :: rest => some (f, { s with supply := rest })

/-! ## The functions -/

/-- `alloc_frame`. -/
def allocFrame : PagingM Nat := do
  let frame ← takeFrame
  forUpTo 512 fun i => storeEntry frame i 0
  return frame

/-- `paging_init_kernel_map`. -/
def pagingInitKernelMap : PagingM Unit := do
  let kernelPml4 ← allocFrame
  modify fun s => { s with kernelPml4 := kernelPml4 }
  let kernelPdpt ← allocFrame
  modify fun s => { s with kernelPdpt := kernelPdpt }
  let pd ← allocFrame
  forUpTo 512 fun i => storeEntry pd i (i <<< 21 ||| 0x83)
  storeEntry kernelPdpt 0 (pd ||| 0x03)
  storeEntry kernelPml4 0 (kernelPdpt ||| 0x03)
  modify fun s => { s with cr3 := kernelPml4 }

/-- `(a >> shift) & 0x1FF`. -/
def tableIndex (a shift : Nat) : Nat := a >>> shift &&& 0x1FF

/-- `entry & 1`. -/
def present (entry : Nat) : Bool := entry.testBit 0

/-- `get_or_create_next_level`: the table that entry `idx` of `table` points to,
made with `flags` when there is none. -/
def getOrCreateNextLevel (table idx flags : Nat) : PagingM Nat := do
  let e ← loadEntry table idx
  if present e then return pageMask e
  else
    let newTable ← allocFrame
    storeEntry table idx (newTable ||| flags)
    let e ← loadEntry table idx
    return pageMask e

/-- `get_or_create_pdpt_entry_table`. -/
def getOrCreatePdptEntryTable (pml4Table pml4Idx : Nat) : PagingM Nat :=
  getOrCreateNextLevel pml4Table pml4Idx 0x03

/-- `paging_map_mmio_2mb`. -/
def pagingMapMmio2mb (pa : Nat) : PagingM Unit := do
  let pdptIdx := tableIndex pa 30
  let pdIdx := tableIndex pa 21
  let kernelPdpt := (← get).kernelPdpt
  let pd ← getOrCreateNextLevel kernelPdpt pdptIdx 0x03
  storeEntry pd pdIdx (pa ||| 0x93)

/-- `DEMO_VA`. -/
def demoVa : Nat := 0x40000000

/-- `USER_CODE_VA`. -/
def userCodeVa : Nat := 0x50000000

/-- `USER_STACK_PAGE_VA`. -/
def userStackPageVa : Nat := 0x50001000

/-- `map_user_page`. -/
def mapUserPage (pml4Table va frame : Nat) : PagingM Unit := do
  let userFlags := 0x07
  let pdptT ← getOrCreatePdptEntryTable pml4Table (tableIndex va 39)
  let pdT ← getOrCreateNextLevel pdptT (tableIndex va 30) userFlags
  let ptT ← getOrCreateNextLevel pdT (tableIndex va 21) userFlags
  storeEntry ptT (tableIndex va 12) (frame ||| userFlags)

/-- `user_program`: load 1 and the letter `X`, then `int 0x80` in a loop. -/
def userProgram : List Nat :=
  [0xB8, 0x01, 0x00, 0x00, 0x00, 0xBF, 0x58, 0x00, 0x00, 0x00, 0xCD, 0x80, 0xEB, 0xFC]

/-- `inherit_kernel_pdpt`. -/
def inheritKernelPdpt (newPdpt : Nat) : PagingM Unit :=
  forUpTo 512 fun i => do
    let kernelPdpt := (← get).kernelPdpt
    let e ← loadEntry kernelPdpt i
    if present e then storeEntry newPdpt i e

/-- `create_user_process`. -/
def createUserProcess : PagingM Nat := do
  let newPml4 ← allocFrame
  let newPdpt ← allocFrame
  inheritKernelPdpt newPdpt
  storeEntry newPml4 0 (newPdpt ||| 0x07)
  let codeFrame ← allocFrame
  let stackFrame ← allocFrame
  forUpTo userProgram.length fun i => store (codeFrame + i) 1 (userProgram.getD i 0)
  mapUserPage newPml4 userCodeVa codeFrame
  mapUserPage newPml4 userStackPageVa stackFrame
  return newPml4

/-- `create_address_space`. -/
def createAddressSpace : PagingM Nat := do
  let newPml4 ← allocFrame
  let newPdpt ← allocFrame
  let privPd ← allocFrame
  let privPt ← allocFrame
  let privFrame ← allocFrame
  inheritKernelPdpt newPdpt
  storeEntry privPt 0 (privFrame ||| 0x03)
  storeEntry privPd 0 (privPt ||| 0x03)
  storeEntry newPdpt 1 (privPd ||| 0x03)
  storeEntry newPml4 0 (newPdpt ||| 0x03)
  return newPml4

end NekaKernel.Paging
