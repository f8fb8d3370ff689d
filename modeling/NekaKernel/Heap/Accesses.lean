/-
  Heap/Accesses.lean --- `kmalloc` and `kfree`, one load or store at a time.

  Source: `heap.c`.

  `Heap/Alloc.lean` takes each call as one step, which is what it is for a caller on
  the same CPU.  Here the same bodies are programs whose loads and stores come one by
  one, in the order of the C expressions, so that other CPUs may write between two of
  them.  Run without interruption they are the functions of `Heap/Alloc.lean`.
-/
import NekaKernel.Foundation.Access
import NekaKernel.Heap.Refine

set_option autoImplicit false

namespace NekaKernel.Heap

open NekaKernel.Foundation NekaKernel.Foundation.Program NekaKernel.Kernel

/-! ## The code -/

/-- `find_free_block`. -/
def findFreeBlockAccesses (wanted : Nat) : Nat → Nat → Program (Option Nat)
  | 0, _ => pure none
  | fuel + 1, b =>
      if b = 0 then pure (some 0)
      else do
        let isFree ← word (b + 8) 4
        if isFree ≠ 0 then do
          let blockSize ← word b 8
          if wanted ≤ blockSize then pure (some b)
          else do
            let n ← word (b + 16) 8
            findFreeBlockAccesses wanted fuel n
        else do
          let n ← word (b + 16) 8
          findFreeBlockAccesses wanted fuel n

/-- `if (b->next) b->next->prev = p`. -/
def relinkAccesses (b p : Nat) : Program Unit := do
  let n ← word (b + 16) 8
  if n ≠ 0 then do
    let n ← word (b + 16) 8
    put (n + 24) 8 p
  else pure ()

/-- `split_block`. -/
def splitBlockAccesses (b wanted : Nat) : Program Unit := do
  let blockSize ← word b 8
  let remaining := sub64 blockSize wanted
  if remaining ≤ sizeofBlock + 16 then pure ()
  else do
    let newBlock := add64 (add64 b sizeofBlock) wanted
    put newBlock 8 (remaining - sizeofBlock)
    put (newBlock + 8) 4 1
    let n ← word (b + 16) 8
    put (newBlock + 16) 8 n
    put (newBlock + 24) 8 b
    relinkAccesses b newBlock
    put (b + 16) 8 newBlock
    put b 8 wanted

/-- The body of `kmalloc(n)` between `NKern_Lock` and `NKern_Unlock`, with `heap_list`. -/
def kmallocAccesses (heapList n : Nat) : Program (Exit Nat) := do
  let totalNeeded := add64 (align16 n) sizeofMagic
  let found ← findFreeBlockAccesses totalNeeded loopFuel heapList
  match found with
  | none => pure .hang
  | some b =>
      if b = 0 then pure (.panic .HEAP panicHeapOom)
      else do
        splitBlockAccesses b totalNeeded
        put (b + 8) 4 0
        put (b + 32) 4 blockMagic
        pure (.ret (add64 (add64 b sizeofBlock) sizeofMagic))

/-- What `coalesce_forward` does with a free next block `n`. -/
def absorbAccesses (b n : Nat) : Program Unit := do
  let blockSize ← word b 8
  let nextSize ← word n 8
  put b 8 (add64 blockSize (add64 sizeofBlock nextSize))
  let after ← word (n + 16) 8
  put (b + 16) 8 after
  relinkAccesses n b

/-- `coalesce_forward`. -/
def coalesceForwardAccesses (b : Nat) : Program Unit := do
  let n ← word (b + 16) 8
  if n ≠ 0 then do
    let isFree ← word (n + 8) 4
    if isFree ≠ 0 then absorbAccesses b n else pure ()
  else pure ()

/-- `if (b->prev && b->prev->free) coalesce_forward(b->prev)`. -/
def coalesceBackwardAccesses (b : Nat) : Program Unit := do
  let p ← word (b + 24) 8
  if p ≠ 0 then do
    let isFree ← word (p + 8) 4
    if isFree ≠ 0 then do
      let p ← word (b + 24) 8
      coalesceForwardAccesses p
    else pure ()
  else pure ()

/-- The body of `kfree(ptr)` between `NKern_Lock` and `NKern_Unlock`. -/
def kfreeAccesses (ptr : Nat) : Program (Exit Unit) := do
  let slot := sub64 ptr sizeofMagic
  let magic ← word slot 4
  if magic ≠ blockMagic then pure (.panic .HEAP panicHeapCorrupt)
  else do
    let b := sub64 slot sizeofBlock
    put (b + 8) 4 1
    put slot 4 0
    coalesceForwardAccesses b
    coalesceBackwardAccesses b
    pure (.ret ())

/-! ## Without interruption -/

section Run

variable {m : Mem}

theorem run_findFreeBlockAccesses {wanted : Nat} :
    ∀ {fuel b : Nat}, (findFreeBlockAccesses wanted fuel b).run m =
      (findFreeBlock m wanted fuel b, m) := by
  intro fuel
  induction fuel with
  | zero =>
    intro b
    rfl
  | succ fuel ih =>
    intro b
    unfold findFreeBlockAccesses findFreeBlock Heap.free Heap.size Heap.next
    split
    · rfl
    · by_cases hfree : m.read (b + 8) 4 = 0
      · simp [hfree, ih]
      · by_cases hfit : wanted ≤ m.read b 8
        · simp [hfree, hfit]
        · simp [hfree, hfit, ih]

theorem run_relinkAccesses (b p : Nat) :
    (relinkAccesses b p).run m = ((), if next m b ≠ 0 then setPrev m (next m b) p else m) := by
  unfold relinkAccesses setPrev Heap.next
  simp only [run_bind, run_word, run_ite, run_put, run_pure]
  split <;> rfl

theorem run_splitBlockAccesses (b wanted : Nat) :
    (splitBlockAccesses b wanted).run m = ((), splitBlock m b wanted) := by
  unfold splitBlockAccesses splitBlock
  simp only [run_bind, run_word, run_ite, run_put, run_pure, run_relinkAccesses]
  unfold setSize setFree setNext Heap.size
  split <;> rfl

/-- **`kmalloc`** without interruption. -/
theorem run_kmallocAccesses {heapList n : Nat} (hn : n ≠ 0) :
    (kmallocAccesses heapList n).run m =
      ((kmalloc ⟨heapList, m⟩ n).1, (kmalloc ⟨heapList, m⟩ n).2.mem) := by
  unfold kmallocAccesses kmalloc
  generalize loopFuel = fuel
  simp only [run_bind, run_findFreeBlockAccesses, hn, if_false]
  cases hfind : findFreeBlock m (add64 (align16 n) sizeofMagic) fuel heapList with
  | none => rfl
  | some b =>
    dsimp only
    simp only [run_ite, run_bind, run_splitBlockAccesses, run_put, run_pure]
    split <;> rfl

theorem run_absorbAccesses (b n : Nat) :
    (absorbAccesses b n).run m =
      let m := setSize m b (add64 (size m b) (add64 sizeofBlock (size m n)))
      let m := setNext m b (next m n)
      ((), if next m n ≠ 0 then setPrev m (next m n) b else m) := by
  unfold absorbAccesses setSize setNext
  simp only [run_bind, run_word, run_put, run_relinkAccesses]
  rfl

theorem run_coalesceForwardAccesses (b : Nat) :
    (coalesceForwardAccesses b).run m = ((), coalesceForward m b) := by
  unfold coalesceForwardAccesses coalesceForward
  simp only [run_bind, run_word, run_ite, run_pure, run_absorbAccesses]
  unfold Heap.free Heap.next
  by_cases hn : m.read (b + 16) 8 = 0
  · simp [hn]
  · by_cases hfree : m.read (m.read (b + 16) 8 + 8) 4 = 0
    · simp [hn, hfree]
    · simp [hn, hfree]

theorem run_coalesceBackwardAccesses (b : Nat) :
    (coalesceBackwardAccesses b).run m =
      ((), if prev m b ≠ 0 ∧ free m (prev m b) ≠ 0 then coalesceForward m (prev m b)
        else m) := by
  unfold coalesceBackwardAccesses
  simp only [run_bind, run_word, run_ite, run_pure, run_coalesceForwardAccesses]
  unfold Heap.free Heap.prev
  by_cases hp : m.read (b + 24) 8 = 0
  · simp [hp]
  · by_cases hfree : m.read (m.read (b + 24) 8 + 8) 4 = 0
    · simp [hp, hfree]
    · simp [hp, hfree]

/-- **`kfree`** without interruption. -/
theorem run_kfreeAccesses (heapList : Nat) {ptr : Nat} (hptr : ptr ≠ 0) :
    (kfreeAccesses ptr).run m = ((kfree ⟨heapList, m⟩ ptr).1,
      (kfree ⟨heapList, m⟩ ptr).2.mem) := by
  unfold kfreeAccesses kfree setFree
  simp only [run_bind, run_word, run_ite, run_put, run_pure, run_coalesceForwardAccesses,
    run_coalesceBackwardAccesses, hptr, if_false]
  split <;> simp only

end Run

end NekaKernel.Heap
